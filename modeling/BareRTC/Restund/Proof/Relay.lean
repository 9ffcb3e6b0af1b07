import BareRTC.Restund.Proof.Steps

/-!
# Data is relayed as permitted

Every permission in the table was installed or refreshed by a request that succeeded, 300 seconds
before it expires, and every channel was bound by one (`History`). With what a step can send
(`step_spec`) this gives the requests that stand behind everything that is relayed, in both
directions (`relayed_as_permitted`).
-/

namespace BareRTC.Restund

open Sdp (Sa Addr)
open Stun (Msg)

/-! ## Requests that succeeded -/

def Succeeds (cfg : Config) (id : Nat) (Asks : Msg → Prop) (s : Server) (ev : Event) : Prop :=
  ∃ env via msg, ev.request = some (env, via, msg) ∧ (∃ al ∈ s.allocs, al.id = id ∧ al.cmp via) ∧ Asks msg ∧
    ∃ out ∈ (step cfg s ev).2, IsSuccess via msg out

def AsksFor (addr : Addr) (msg : Msg) : Prop := ∃ peer ∈ requestedPeers msg, peer.addr = addr

def Permitted (cfg : Config) (evs : List Event) (id : Nat) (peer : Sa) (now : Nat) : Prop :=
  Once (step cfg) (fun s ev => Succeeds cfg id (AsksFor peer.addr) s ev ∧ now ≤ ev.env.now + 300) {} evs

def Bound (cfg : Config) (evs : List Event) (id : Nat) (numb : UInt16) (peer : Sa) (now : Nat) : Prop :=
  Once (step cfg) (fun s ev => Succeeds cfg id (Binds · numb peer) s ev ∧ now ≤ ev.env.now + 600) {} evs

/-! ## Where permissions and channels come from -/

structure History (cfg : Config) (evs : List Event) (al : Allocation) : Prop where
  perms : ∀ perm ∈ al.perms, Once (step cfg) (fun s ev =>
    Succeeds cfg al.id (AsksFor perm.peer.addr) s ev ∧ perm.expires = ev.env.now + permLifetime) {} evs
  chans : ∀ chan ∈ al.chans, Once (step cfg) (fun s ev =>
    Succeeds cfg al.id (Binds · chan.numb chan.peer) s ev ∧ chan.expires = ev.env.now + chanLifetime) {} evs

theorem Event.recv_of_request {ev : Event} {env : Env} {via : Via} {msg : Msg}
    (h : ev.request = some (env, via, msg)) : ∃ mb, ev = .recv env via mb := by
  cases ev with
  | recv env' via' mb =>
    simp only [Event.request] at h
    split at h
    · split at h
      · cases h
        exact ⟨mb, rfl⟩
      · cases h
    · cases h
  | peer | timer => cases h

theorem Event.env_of_request {ev : Event} {env : Env} {via : Via} {msg : Msg}
    (h : ev.request = some (env, via, msg)) : ev.env = env := by
  obtain ⟨mb, rfl⟩ := recv_of_request h
  rfl

variable {cfg : Config} {evs : List Event} {al : Allocation}

theorem History.kept {al' : Allocation} (h : History cfg evs al)
    (hkept : Kept al al') {ev : Event} : History cfg (evs ++ [ev]) al' := by
  constructor
  · intro perm hperm
    rw [hkept.id]
    exact (h.perms perm (hkept.perms.subset hperm)).append _
  intro chan hchan
  rw [hkept.id]
  exact (h.chans chan (hkept.chans.subset hchan)).append _

theorem History.served {env : Env} {via : Via} {msg : Msg}
    {ctx : Msgctx} {ev : Event} (h : History cfg evs al) (hal : al ∈ (exec (step cfg) {} evs).allocs)
    (hreq : ev.request = some (env, via, msg)) (hcmp : al.cmp via)
    (hserves : Serves env via msg al (allocationRequest cfg.turnd env ctx via msg al))
    (hout : (allocationRequest cfg.turnd env ctx via msg al).2 ∈ (step cfg (exec (step cfg) {} evs) ev).2) :
    History cfg (evs ++ [ev]) (allocationRequest cfg.turnd env ctx via msg al).1 := by
  have hsucceeds : ∀ Asks : Msg → Prop, Asks msg → IsSuccess via msg (allocationRequest cfg.turnd env ctx via msg al).2 →
      Succeeds cfg al.id Asks (exec (step cfg) {} evs) ev := fun Asks hasks hsuccess =>
    ⟨env, via, msg, hreq, ⟨al, hal, rfl, hcmp⟩, hasks, _, hout, hsuccess⟩
  have henv := Event.env_of_request hreq
  constructor
  · intro perm hperm
    rw [hserves.fixed.same.id]
    rcases hserves.perms perm hperm with hold | ⟨hsuccess, hexp, peer, hpeer, haddr⟩
    · exact (h.perms perm hold).append _
    · exact .last ⟨hsucceeds _ ⟨peer, hpeer, haddr.symm⟩ hsuccess, by rw [henv, hexp]⟩
  intro chan hchan
  rw [hserves.fixed.same.id]
  rcases hserves.chans chan hchan with hold | ⟨hsuccess, hexp, hbinds⟩
  · exact (h.chans chan hold).append _
  · exact .last ⟨hsucceeds _ hbinds hsuccess, by rw [henv, hexp]⟩

theorem exec_histories (cfg : Config) (evs : List Event) :
    ∀ al ∈ (exec (step cfg) {} evs).allocs, History cfg evs al := by
  have h0 : ∀ al ∈ ({} : Server).allocs, History cfg [] al := by simp
  refine @exec_history _ _ _ (step cfg) {} (fun evs s => ∀ al ∈ s.allocs, History cfg evs al) h0 ?_ evs
  intro evs ev ih al' hal'
  rcases (step_spec cfg (exec_ok cfg evs) ev).1.from_ al' hal' with ⟨al, hal, hkept⟩ | ⟨env, via, msg, hreq, ctx, -, hgain⟩
  · exact (ih al hal).kept hkept.toKept
  cases hgain with
  | created hnew =>
    constructor
    · rw [hnew.perms]
      exact nofun
    · rw [hnew.chans]
      exact fun _ h => absurd h Chanlist.not_mem_empty
  | @served al hmet hal hcmp _ hout heq =>
    rw [heq]
    exact (ih al hal).served hal hreq hcmp (allocationRequest_serves cfg.turnd env ctx via msg hmet al) hout

/-! ## What is relayed -/

theorem Allocation.Permits.permitted {peer : Sa} {now : Nat}
    (h : al.Permits peer now) (hal : al ∈ (exec (step cfg) {} evs).allocs) : Permitted cfg evs al.id peer now := by
  obtain ⟨perm, hperm, haddr, hlive⟩ := h
  refine ((exec_histories cfg evs al hal).perms perm hperm).mono fun s ev ⟨hsucceeds, hexp⟩ => ⟨haddr ▸ hsucceeds, ?_⟩
  rw [hexp] at hlive
  exact hlive

def AsPermitted (cfg : Config) (evs : List Event) (ev : Event) : Out → Prop
  | .reply _ _ _ _ => True
  | .relay us dst d => ∃ al ∈ (exec (step cfg) {} evs).allocs, al.relUs = some us ∧
      (∀ al' ∈ (exec (step cfg) {} evs).allocs, al'.relUs = some us → al' = al) ∧
      Permitted cfg evs al.id dst ev.env.now ∧ restundAddrIsBlocked dst = false ∧ ClientSends al dst d ev
  | .chanData proto sock cli b => ∃ al ∈ (exec (step cfg) {} evs).allocs, ∃ env us src d numb,
      ev = .peer env us src d ∧ al.relUs = some us ∧ (proto, sock, cli) = (al.proto, al.cliSock, al.cliAddr) ∧
      Permitted cfg evs al.id src env.now ∧ Bound cfg evs al.id numb src env.now ∧ b = chanMessage al.proto numb d
  | .dataInd proto sock cli peer d => ∃ al ∈ (exec (step cfg) {} evs).allocs, ∃ env us,
      ev = .peer env us peer d ∧ al.relUs = some us ∧ (proto, sock, cli) = (al.proto, al.cliSock, al.cliAddr) ∧
      Permitted cfg evs al.id peer env.now
  | .fault => False

/-- After every run, whatever event comes next, everything that is relayed is relayed as
permitted. -/
theorem relayed_as_permitted (cfg : Config) (evs : List Event) (ev : Event) :
    ∀ out ∈ (step cfg (exec (step cfg) {} evs) ev).2, AsPermitted cfg evs ev out := by
  intro out hout
  have hok := exec_ok cfg evs
  cases (step_spec cfg hok ev).2 out hout with
  | reply => trivial
  | relay hal hus hpermits hblocked hdata =>
    refine ⟨_, hal, hus, fun al' hal' hus' => ?_, hpermits.permitted hal, hblocked, hdata⟩
    exact hok.owner hal' hal (Server.Ok.mem_allocation_socks.2 ⟨rfl, hus'⟩) (Server.Ok.mem_allocation_socks.2 ⟨rfl, hus⟩)
  | @chanData al env us src d chan hal hev hus hpermits hchan hpeer hlive =>
    refine ⟨al, hal, env, us, src, d, chan.numb, hev, hus, rfl, hpermits.permitted hal, ?_, rfl⟩
    refine ((exec_histories cfg evs al hal).chans chan hchan).mono fun s ev' ⟨hsucceeds, hexp⟩ => ⟨hpeer ▸ hsucceeds, ?_⟩
    rw [hexp] at hlive
    exact hlive
  | @dataInd al env us src d hal hev hus hpermits =>
    exact ⟨al, hal, env, us, hev, hus, rfl, hpermits.permitted hal⟩

/-! ### A run -/

def datagram (d : Bytes) : { mb : Mbuf // mb.Ok } := ⟨⟨d, 0, d.length⟩, Nat.zero_le _, le_refl _⟩

def calm (now : Nat) (h : now < 2 ^ 63) (ha1 : Bytes → Option Bytes) : Env where
  now
  now_lt := h
  jiffies := 1000 * now
  msgMem := true
  keyMem := true
  mem _ := true
  ha1
  reply := none
  tries _ := { localGet := .ok ⟨.inet 0x0a000001, 40000⟩ }
  txqsz := 0
  other _ := false

def relayConf : Turnd where
  relAddr := some ⟨.inet 0x0a000001, 0⟩
  relAddr6 := none
  publicAddr := none
  lifetimeMax := 600
  bsize := 512
  software := []

def openServer : Config where
  turnd := relayConf
  auth := ⟨3600, 0, [], [], fun _ => ⟨List.replicate 16 0, rfl⟩, Stun.noHash⟩
  mods := [.turn]
  nodup := by decide

def aClient : Via := ⟨.udp, 0, ⟨.inet 0xc6336401, 6000⟩, ⟨.inet 0x0a000001, 3478⟩⟩
def aPeer : Sa := ⟨.inet 0xc0000201, 5000⟩
def aPeerAttr : Bytes := [0, 0x12, 0, 8, 0, 1, 0x32, 0x9a, 0xe1, 0x12, 0xa6, 0x43]

def aMessage (typ len : UInt8) (attrs : Bytes) : Bytes :=
  [0, typ, 0, len, 0x21, 0x12, 0xa4, 0x42, 1, 2, 3, 4, 5, 6, 7, 8, 9, 10, 11, 12] ++ attrs

/-- An allocation is made, a permission created 300 seconds before data is sent, and the data is
relayed. -/
theorem relayed_as_permitted_send :
    AsPermitted openServer
      [.recv (calm 100 (by decide) fun _ => none) aClient (datagram (aMessage 3 8 [0, 0x19, 0, 4, 17, 0, 0, 0])),
        .recv (calm 200 (by decide) fun _ => none) aClient (datagram (aMessage 8 12 aPeerAttr))]
      (.recv (calm 500 (by decide) fun _ => none) aClient
        (datagram (aMessage 0x16 20 (aPeerAttr ++ [0, 0x13, 0, 2, 0x68, 0x69, 0, 0]))))
      (.relay 1 aPeer [0x68, 0x69]) :=
  relayed_as_permitted _ _ _ _ (by decide +kernel)

end BareRTC.Restund
