import BareRTC.Restund.Proof.Relay

/-!
# Nothing is there twice

Between events there is one allocation for a client, and a socket belongs to one allocation
(`allocations_unique`). The channels of an allocation bind numbers and peers one to one, and a
binding is there until it has expired (`channels_bijective`). Each channel is in both tables of
`struct chanlist`.

A CreatePermission request takes the permissions that it finds out of the table while it scans the
peers, so that a second attribute with the same address creates another one (`permission_twice`). If
no request does this, an address has one permission at most (`permissions_unique`). A permission
that is refreshed later can then be behind another one (`createperm_atomic_iff`).
-/

namespace BareRTC.Restund

open List

open Sdp (Sa Addr)
open Stun (Msg stunMsgMethod)

/-! ## Allocations -/

/-- Whatever was received: there is one allocation for a client, a server and a protocol,
`allocc_cur` counts the allocations, each has a relay socket and its address, and every socket that
is open is one of one allocation. -/
theorem allocations_unique (cfg : Config) (evs : List Event) :
    let s := exec (step cfg) {} evs
    (s.allocs.map (·.tuple)).Nodup ∧ s.alloccCur = UInt32.ofNat s.allocs.length ∧
      (∀ al ∈ s.allocs, al.relUs.isSome ∧ al.relAddr.isSome ∧ ∀ p ∈ al.socks, p ∈ s.socks) ∧
      (s.socks.map (·.1)).Nodup ∧ ∀ p ∈ s.socks, ∃! al, al ∈ s.allocs ∧ p ∈ al.socks := by
  have hs := exec_ok cfg evs
  refine ⟨hs.tuples, hs.count, fun al hal => ?_, hs.apart, fun p hp => ?_⟩
  · exact ⟨(hs.relayed al hal).relUs, (hs.relayed al hal).relAddr, fun _ hp => hs.mem_socks hal hp⟩
  · obtain ⟨al, hal, hmem⟩ := mem_flatMap.1 (hs.socks.mem_iff.1 hp)
    exact ⟨al, ⟨hal, hmem⟩, fun al' ⟨hal', hmem'⟩ => hs.owner hal' hal hmem' hmem⟩

/-- **An allocation ends with its own timer**, and with nothing else that happens. -/
theorem allocations_last (cfg : Config) (evs : List Event) (ev : Event) : let s := exec (step cfg) {} evs
    (s.allocs.map (·.id)).Nodup ∧
      ∀ al ∈ s.allocs, (∃ al' ∈ (step cfg s ev).1.allocs, al'.id = al.id) ∨ Expires ev al :=
  ⟨(exec_ok cfg evs).ids, (step_spec cfg (exec_ok cfg evs) ev).1.stays⟩

/-! ## Invariants of an allocation -/

/-- What holds of an allocation without permissions and channels, and is kept when some of them are
removed and when a request is served, holds of every allocation. -/
theorem exec_allocs {P : Allocation → Prop} (cfg : Config) {evs : List Event}
    (hnew : ∀ al, al.perms = [] → al.chans = {} → P al) (hkept : ∀ al al', Kept al al' → P al → P al')
    (hserved : ∀ ev ∈ evs, ∀ env ctx via msg al, ev.request = some (env, via, msg) → P al →
      P (allocationRequest cfg.turnd env ctx via msg al).1) :
    ∀ al ∈ (exec (step cfg) {} evs).allocs, P al := by
  induction evs using List.reverseRecOn with
  | nil => simp
  | append_singleton evs ev ih =>
    replace ih := ih fun ev hev => hserved ev (mem_append_left _ hev)
    rw [exec_append]
    intro al' hal'
    rcases (step_spec cfg (exec_ok cfg evs) ev).1.from_ al' hal' with
      ⟨al, hal, hkeep⟩ | ⟨env, via, msg, hreq, ctx, -, hgain⟩
    · exact hkept al al' hkeep.toKept (ih al hal)
    cases hgain with
    | created hcreated => exact hnew al' hcreated.perms hcreated.chans
    | @served al _ hal _ _ _ heq =>
      rw [heq]
      exact hserved ev (mem_append_right _ (mem_singleton_self ev)) env ctx via msg al hreq (ih al hal)

variable (t : Turnd) (env : Env) (ctx : Msgctx) (via : Via) (msg : Msg) (al : Allocation)

theorem createpermRequest_chans : (createpermRequest t env ctx via msg al).1.chans = al.chans := by
  rcases createpermRequest_cases t env ctx via msg al with ⟨-, -, heq⟩ | ⟨heq, -⟩ <;> rw [heq]

theorem refreshRequest_eq : ∃ tmr, (refreshRequest t env ctx via msg al).1 = { al with tmr } := by
  unfold refreshRequest
  split <;> exact ⟨_, rfl⟩

/-! ## Requests -/

variable {al}

structure Bijective (cl : Chanlist) : Prop where
  both : cl.htPeer = cl.htNumb
  numbs : (cl.htNumb.map (·.numb)).Nodup
  peers : (cl.htPeer.map (·.peer)).Nodup
  valid : ∀ chan ∈ cl, 0x4000 ≤ chan.numb ∧ chan.numb ≤ 0x7fff

section
variable {cl cl' : Chanlist} {now : Nat} {numb : UInt16} {peer : Sa} {chan : Chan}

theorem Bijective.empty : Bijective {} :=
  ⟨rfl, nodup_nil, nodup_nil, fun _ h => absurd h Chanlist.not_mem_empty⟩

theorem Bijective.unlinked (h : Bijective cl) (hgone : cl.Unlinked cl') : Bijective cl' := by
  obtain ⟨gone, rfl⟩ := hgone
  induction gone generalizing cl with
  | nil => exact h
  | cons chan gone ih =>
    refine ih ⟨congrArg (List.erase · chan) h.both, ?_, ?_, fun c hc => h.valid c (Chanlist.mem_unlink hc)⟩
    · exact h.numbs.sublist (erase_sublist.map _)
    · exact h.peers.sublist (erase_sublist.map _)

theorem Bijective.mem_iff (h : Bijective cl) : chan ∈ cl ↔ chan ∈ cl.htNumb := by
  show chan ∈ cl.htNumb ∨ chan ∈ cl.htPeer ↔ _
  rw [h.both, or_self]

theorem erase_of_find (chans : List Chan) (p : Chan → Bool) :
    (chans.find? p).elim chans chans.erase = chans.eraseP p := by
  cases hfind : chans.find? p with
  | none => exact (eraseP_of_forall_not (by simpa using hfind)).symm
  | some chan => exact erase_eq_eraseP_of_find hfind

theorem Bijective.not_mem_numbs (h : Bijective cl) (hnone : chanNumbFind now numb cl = (none, cl')) :
    numb ∉ cl'.htNumb.map (·.numb) := by
  have htable : cl'.htNumb = cl.htNumb.eraseP (·.numb = numb) := by
    rw [Chanlist.found_none hnone, ← erase_of_find]
    cases cl.htNumb.find? (·.numb = numb) <;> rfl
  rw [htable]
  exact not_mem_eraseP h.numbs

theorem Bijective.not_mem_peers (h : Bijective cl) (hnone : chanPeerFind now peer cl = (none, cl')) :
    peer ∉ cl'.htPeer.map (·.peer) := by
  have htable : cl'.htPeer = cl.htPeer.eraseP (·.peer = peer) := by
    rw [Chanlist.found_none hnone, ← erase_of_find]
    cases cl.htPeer.find? (·.peer = peer) <;> rfl
  rw [htable]
  exact not_mem_eraseP h.peers

theorem Bijective.append (h : Bijective cl) (hnumb : chan.numb ∉ cl.htNumb.map (·.numb))
    (hpeer : chan.peer ∉ cl.htPeer.map (·.peer))
    (hvalid : 0x4000 ≤ chan.numb ∧ chan.numb ≤ 0x7fff) : Bijective (cl.append chan) := by
  refine ⟨congrArg (· ++ [chan]) h.both, ?_, ?_, fun c hc => ?_⟩
  · rw [Chanlist.append, map_append, nodup_append']
    exact ⟨h.numbs, nodup_singleton _, disjoint_singleton.2 hnumb⟩
  · rw [Chanlist.append, map_append, nodup_append']
    exact ⟨h.peers, nodup_singleton _, disjoint_singleton.2 hpeer⟩
  · rcases Chanlist.mem_append hc with hc | rfl
    · exact h.valid c hc
    · exact hvalid

theorem Bijective.refresh (h : Bijective cl) (hchan : chan ∈ cl) : Bijective (cl.refresh now chan) := by
  refine ⟨congrArg (modifyFirst _ _) h.both, ?_, ?_, fun c hc => ?_⟩
  · rw [Chanlist.refresh, map_modifyFirst (f := chanRefresh now) fun _ => rfl]
    exact h.numbs
  · rw [Chanlist.refresh, map_modifyFirst (f := chanRefresh now) fun _ => rfl]
    exact h.peers
  · rcases Chanlist.mem_refresh hc with hc | rfl
    · exact h.valid c hc
    · exact h.valid chan hchan

/-- Both tables have a channel, under its own number and its own peer. -/
theorem Bijective.indexed (h : Bijective cl) (hchan : chan ∈ cl) :
    cl.htNumb.find? (·.numb = chan.numb) = some chan ∧
      cl.htPeer.find? (·.peer = chan.peer) = some chan := by
  have hnumb := h.mem_iff.1 hchan
  have hfind {κ : Type} [DecidableEq κ] {key : Chan → κ} {chans : List Chan}
      (hkeys : (chans.map key).Nodup) (hmem : chan ∈ chans) :
      chans.find? (key · = key chan) = some chan := by
    cases hfind : chans.find? (key · = key chan) with
    | none => exact absurd (find?_eq_none.1 hfind chan hmem) (by simp)
    | some c =>
      have hkey : key c = key chan := by simpa using find?_some hfind
      rw [inj_on_of_nodup_map hkeys (mem_of_find?_eq_some hfind) hmem hkey]
  exact ⟨hfind h.numbs hnumb, hfind h.peers (h.both ▸ hnumb)⟩

end

def addrs (perms : List Perm) : List Addr := perms.map (·.peer.addr)

theorem not_mem_permFind {peer : Sa} {perms : List Perm} (h : (addrs perms).Nodup)
    (hnone : (permFind env.now peer perms).1 = none) :
    peer.addr ∉ addrs (permFind env.now peer perms).2 := by
  have htable : (permFind env.now peer perms).2 = perms.eraseP (·.cmp peer) :=
    findLive_eq_none (Prod.ext hnone rfl)
  rw [htable]
  exact not_mem_eraseP h

theorem chanbindBind_unique {numb : UInt16} (hnumb : chanNumbValid numb) {peer : Sa}
    (h : Bijective al.chans) :
    Bijective (chanbindBind t env ctx via msg al numb peer).1.chans ∧
      ((addrs al.perms).Nodup →
        (addrs (chanbindBind t env ctx via msg al numb peer).1.perms).Nodup) := by
  obtain ⟨chNumb, cl, hfind⟩ : ∃ o cl, chanNumbFind (env.now - env.tick) numb al.chans = (o, cl) :=
    ⟨_, _, rfl⟩
  obtain ⟨chPeer, cl', hfind'⟩ : ∃ o cl', chanPeerFind env.now peer cl = (o, cl') := ⟨_, _, rfl⟩
  obtain ⟨hgone, -⟩ := Chanlist.found_looked hfind
  obtain ⟨hgone', -⟩ := Chanlist.found_looked hfind'
  have hlooked := h.unlinked hgone
  have hfound := hlooked.unlinked hgone'
  have hperms (h : (addrs al.perms).Nodup) : (addrs (permFind env.now peer al.perms).2).Nodup :=
    h.sublist ((permFind_sublist _ _ _).map _)
  unfold chanbindBind
  simp only [hfind, hfind']
  split
  · exact ⟨hfound, id⟩
  rename_i hsame
  split
  · exact ⟨hfound, id⟩
  split
  · exact ⟨hfound, hperms⟩
  split
  · exact ⟨hfound, hperms⟩
  obtain rfl : chNumb = chPeer := by simpa using hsame
  refine ⟨show Bijective (boundChans env.now numb peer cl' chNumb) from ?_,
    fun hp => show (addrs (if _ then _ else _)).Nodup from ?_⟩
  · cases chNumb with
    | none =>
      refine hfound.append (fun hmem => ?_) (hlooked.not_mem_peers hfind')
        (by simpa [chanNumbValid, chanCreate] using hnumb)
      obtain ⟨c, hc, heq⟩ := mem_map.1 hmem
      exact h.not_mem_numbs hfind (mem_map.2 ⟨c, hlooked.mem_iff.1 (hgone'.subset (.inl hc)), heq⟩)
    | some chan =>
      obtain ⟨hchan, -, rfl⟩ := Chanlist.found_some hfind'
      exact hfound.refresh (.inr (mem_of_find?_eq_some hchan))
  · split
    · rename_i hnone
      rw [Option.isNone_iff_eq_none] at hnone
      rw [addrs, map_append, nodup_append']
      exact ⟨hperms hp, nodup_singleton _, disjoint_singleton.2 (not_mem_permFind env hp hnone)⟩
    · rw [addrs, map_modifyFirst (f := permRefresh env.now) fun _ => rfl]
      exact hperms hp

/-- The scan of the attributes, where no address that is still to come is on the list: what is in
the table and on the list has different addresses. -/
theorem attribApply_unique {relAddr : Option Sa} : ∀ (attrs : List Stun.Attr) (n : Nat) (cp : Createperm),
    (addrs (cp.perms ++ cp.perml.map (·.perm))).Nodup →
    (addrs (cp.perml.map (·.perm)) ++ (listedPeers attrs).map (·.addr)).Nodup →
    (addrs ((attribApply env.now env.mem relAddr n attrs cp).2.perms ++
      (attribApply env.now env.mem relAddr n attrs cp).2.perml.map (·.perm))).Nodup
  | [], _, _, h, _ => h
  | attr :: attrs, n, cp, h, hrest => by
    have hone : AttribStep env.now attr cp _ := attribHandler_step relAddr (env.mem n) attr cp
    unfold attribApply
    generalize attribHandler env.now (env.mem n) relAddr attr cp = r at hone
    cases hone with
    | skip hpeer => exact attribApply_unique attrs _ _ h (by simpa [listedPeers, hpeer] using hrest)
    | stop hperml hsub _ =>
      show (addrs (_ ++ map _ _)).Nodup
      rw [hperml]
      exact h.sublist ((hsub.append_right _).map _)
    | @found peer perm hpeer hfind =>
      refine attribApply_unique attrs _ _ ?_ ?_
      · rw [map_append]
        exact ((perm_move_of_find hfind _).map _).nodup_iff.2 h
      · simpa [addrs, listedPeers, hpeer, addr_of_find hfind] using hrest
    | @created peer perms hpeer hfind =>
      have hlisted : (addrs (cp.perml.map (·.perm)) ++ peer.addr :: (listedPeers attrs).map (·.addr)).Nodup := by
        simpa [listedPeers, hpeer] using hrest
      refine attribApply_unique attrs _ _ ?_ ?_
      · have hsub := h.sublist (((permFind_none hfind).1.append_right _).map _)
        have htable : (addrs cp.perms).Nodup := h.sublist ((sublist_append_left _ _).map _)
        have hnew : peer.addr ∉ addrs _ := not_mem_permFind env htable (by rw [hfind])
        rw [hfind] at hnew
        rw [map_append, ← append_assoc, addrs, map_append, nodup_append']
        refine ⟨hsub, nodup_singleton _, disjoint_singleton.2 fun hmem => ?_⟩
        rw [map_append] at hmem
        rcases mem_append.1 hmem with hmem | hmem
        · exact hnew hmem
        · exact disjoint_of_nodup_append hlisted hmem mem_cons_self
      · simpa [addrs, permCreate] using hlisted

theorem createpermRequest_unique (hlist : ((listedPeers (msg.attrl.map (·.attr))).map (·.addr)).Nodup)
    (h : (addrs al.perms).Nodup) : (addrs (createpermRequest t env ctx via msg al).1.perms).Nodup := by
  have hscan : (addrs ((scanned env msg al).2.perms ++ (scanned env msg al).2.perml.map (·.perm))).Nodup :=
    attribApply_unique env _ 0 { perms := al.perms } (by simpa using h) (by simpa [addrs] using hlist)
  rcases createpermRequest_cases t env ctx via msg al with ⟨-, -, heq⟩ | ⟨heq, -⟩
  · rw [heq]
    show (addrs (foldl _ _ _)).Nodup
    have hpeers : (scanned env msg al).2.perml.map (fun le => (committed env.now le).peer.addr) =
        (scanned env msg al).2.perml.map (·.perm.peer.addr) := map_congr_left fun le _ => by rw [committed_peer]
    rw [foldl_commit]
    simpa [addrs, Function.comp_def, hpeers] using hscan
  · rw [heq]
    exact hscan.sublist (((filter_sublist.map _).append_left _).map _)

theorem allocationRequest_unique (h : Bijective al.chans) :
    Bijective (allocationRequest t env ctx via msg al).1.chans ∧
      (((requestedPeers msg).map (·.addr)).Nodup → (addrs al.perms).Nodup →
        (addrs (allocationRequest t env ctx via msg al).1.perms).Nodup) := by
  unfold allocationRequest
  split
  · obtain ⟨tmr, heq⟩ := refreshRequest_eq t env ctx via msg al
    rw [heq]
    exact ⟨h, fun _ => id⟩
  split
  · rename_i hmet
    rw [createpermRequest_chans, requestedPeers, if_pos hmet]
    exact ⟨h, createpermRequest_unique t env ctx via msg⟩
  unfold chanbindRequest
  split
  · rename_i numb peer _ _
    split
    · exact ⟨h, fun _ => id⟩
    rename_i hnumb
    split
    · exact ⟨h, fun _ => id⟩
    split
    · exact ⟨h, fun _ => id⟩
    · obtain ⟨hchans, hperms⟩ := chanbindBind_unique t env ctx via msg (Bool.eq_true_of_not_eq_false hnumb) h
      exact ⟨hchans, fun _ => hperms⟩
  · exact ⟨h, fun _ => id⟩

/-! ## Channels -/

variable (cfg : Config) {evs mid : List Event}

theorem exec_bijective (evs : List Event) : ∀ al ∈ (exec (step cfg) {} evs).allocs, Bijective al.chans :=
  exec_allocs cfg (fun _ _ hchans => hchans ▸ .empty) (fun _ _ hkept h => h.unlinked hkept.chans)
    fun _ _ env ctx via msg _ _ h => (allocationRequest_unique cfg.turnd env ctx via msg h).1

def Rebinds (chan chan' : Chan) : Prop :=
  (chan'.numb = chan.numb ∧ chan'.peer ≠ chan.peer) ∨ (chan'.peer = chan.peer ∧ chan'.numb ≠ chan.numb)

def RunOut (evs mid : List Event) (id : Nat) (key : UInt16 × Sa) : Prop :=
  ∃ pre ev post, mid = pre ++ ev :: post ∧ ∃ al ∈ (exec (step cfg) {} (evs ++ pre)).allocs, al.id = id ∧
    ∃ chan ∈ al.chans, chan.key = key ∧ chan.expires < ev.env.now ∧
      Once (step cfg) (fun s ev => Succeeds cfg id (Binds · chan.numb chan.peer) s ev ∧
        chan.expires = ev.env.now + 600) {} (evs ++ pre)

theorem RunOut.append {id : Nat} {key : UInt16 × Sa} (h : RunOut cfg evs mid id key) (ev : Event) :
    RunOut cfg evs (mid ++ [ev]) id key := by
  obtain ⟨pre, ev', post, rfl, hrest⟩ := h
  exact ⟨pre, ev', post ++ [ev], by simp, hrest⟩

theorem exec_next (evs mid : List Event) : (exec (step cfg) {} evs).next ≤ (exec (step cfg) {} (evs ++ mid)).next := by
  induction mid using List.reverseRecOn with
  | nil => rw [append_nil]
  | append_singleton mid ev ih =>
    rw [← append_assoc, exec_append]
    exact ih.trans (step_spec cfg (exec_ok cfg (evs ++ mid)) ev).1.next

/-- A binding is there as long as it has not run out. -/
theorem binding_stays {chan : Chan} (hal : al ∈ (exec (step cfg) {} evs).allocs) (hchan : chan ∈ al.chans) :
    ∀ al' ∈ (exec (step cfg) {} (evs ++ mid)).allocs, al'.id = al.id →
      (∃ c ∈ al'.chans, c.key = chan.key) ∨ RunOut cfg evs mid al.id chan.key := by
  induction mid using List.reverseRecOn with
  | nil =>
    rw [append_nil]
    intro al' hal' hid
    rw [(exec_ok cfg evs).eq_of_id hal' hal hid]
    exact .inl ⟨chan, hchan, rfl⟩
  | append_singleton mid ev ih =>
    intro al' hal' hid
    rw [← append_assoc, exec_append] at hal'
    have hstep : ∀ b ∈ (exec (step cfg) {} (evs ++ mid)).allocs, b.id = al.id →
        (∀ c ∈ b.chans, ev.env.now ≤ c.expires → ∃ c' ∈ al'.chans, c'.key = c.key) →
        (∃ c ∈ al'.chans, c.key = chan.key) ∨ RunOut cfg evs (mid ++ [ev]) al.id chan.key := by
      intro b hb hbid hlive
      rcases ih b hb hbid with ⟨c, hc, hckey⟩ | hout
      · rcases Nat.lt_or_ge c.expires ev.env.now with hexp | hexp
        · exact .inr ⟨mid, ev, [], rfl, b, hb, hbid, c, hc, hckey, hexp,
            hbid ▸ (exec_histories cfg (evs ++ mid) b hb).chans c hc⟩
        · exact .inl (hckey ▸ hlive c hc hexp)
      · exact .inr (hout.append cfg ev)
    rcases (step_spec cfg (exec_ok cfg (evs ++ mid)) ev).1.from_ al' hal' with
      ⟨b, hb, hkeep⟩ | ⟨env, via, msg, hreq, ctx, -, hgain⟩
    · exact hstep b hb (hkeep.id.symm.trans hid) fun c hc hexp =>
        ⟨c, hkeep.live c hc hexp, rfl⟩
    cases hgain with
    | created hcreated =>
      -- the number of a new allocation is a new one
      have hlt := (exec_ok cfg evs).ids_lt al hal
      have hle := exec_next cfg evs mid
      have hnew := hcreated.id
      omega
    | @served b hmet hb _ _ _ heq =>
      have hserves := allocationRequest_serves cfg.turnd env ctx via msg hmet b
      refine hstep b hb ?_ fun c hc hexp => ?_
      · rw [← hid, heq, hserves.fixed.same.id]
      · rw [heq]
        exact hserves.live c hc (Event.env_of_request hreq ▸ hexp)

/-- At any time the channels of every allocation bind numbers from `0x4000` to `0x7fff` to peers,
one to one, and each is in both tables under its own number and its own peer; and where a number is
bound to another peer later, or a peer to another number, the first binding has run out before. -/
theorem channels_bijective (evs : List Event) :
    (∀ al ∈ (exec (step cfg) {} evs).allocs, Bijective al.chans ∧
      ∀ chan ∈ al.chans, al.chans.htNumb.find? (·.numb = chan.numb) = some chan ∧
        al.chans.htPeer.find? (·.peer = chan.peer) = some chan) ∧
      ∀ al ∈ (exec (step cfg) {} evs).allocs, ∀ chan ∈ al.chans,
        ∀ mid, ∀ al' ∈ (exec (step cfg) {} (evs ++ mid)).allocs, al'.id = al.id →
          ∀ chan' ∈ al'.chans, Rebinds chan chan' → RunOut cfg evs mid al.id chan.key := by
  have hbij := exec_bijective cfg
  refine ⟨fun al hal => ⟨hbij evs al hal, fun _ => (hbij evs al hal).indexed⟩,
    fun al hal chan hchan mid al' hal' hid chan' hchan' hrebinds => ?_⟩
  refine (binding_stays cfg hal hchan al' hal' hid).resolve_left fun ⟨c, hc, hckey⟩ => ?_
  obtain ⟨hnumb, hpeer⟩ := Prod.mk.inj hckey
  have hc' := (hbij _ al' hal').mem_iff.1 hc
  have hchan'' := (hbij _ al' hal').mem_iff.1 hchan'
  rcases hrebinds with ⟨heq, hne⟩ | ⟨heq, hne⟩
  · have hsame := inj_on_of_nodup_map (hbij _ al' hal').numbs hchan'' hc' (heq.trans hnumb.symm)
    exact hne (hsame ▸ hpeer)
  · rw [← (hbij _ al' hal').both] at hc' hchan''
    have hsame := inj_on_of_nodup_map (hbij _ al' hal').peers hchan'' hc' (heq.trans hpeer.symm)
    exact hne (hsame ▸ hnumb)

/-! ## Permissions -/

def Event.ListsOnce (ev : Event) : Prop := ∀ r ∈ ev.request, ((requestedPeers r.2.2).map (·.addr)).Nodup

instance (ev : Event) : Decidable ev.ListsOnce := by
  unfold Event.ListsOnce
  infer_instance

/-- If no request lists an address twice, every allocation has one permission at most for an
address, at any time. -/
theorem permissions_unique (evs : List Event) (honce : ∀ ev ∈ evs, ev.ListsOnce) :
    ∀ al ∈ (exec (step cfg) {} evs).allocs, (addrs al.perms).Nodup := by
  have hall : ∀ al ∈ (exec (step cfg) {} evs).allocs, Bijective al.chans ∧ (addrs al.perms).Nodup := by
    refine exec_allocs cfg (fun _ hperms hchans => ⟨hchans ▸ .empty, hperms ▸ nodup_nil⟩)
      (fun _ _ hkept h => ⟨h.1.unlinked hkept.chans, h.2.sublist (hkept.perms.map _)⟩) ?_
    intro ev hev env ctx via msg al hreq h
    obtain ⟨hchans, hperms⟩ := allocationRequest_unique cfg.turnd env ctx via msg h.1
    exact ⟨hchans, hperms (honce ev hev (env, via, msg) hreq) h.2⟩
  exact fun al hal => (hall al hal).2

def permissionRun (len : UInt8) (attrs : Bytes) : List Event :=
  [.recv (calm 100 (by decide : 101 ≤ _) fun _ => none) aClient (datagram (aMessage 3 8 [0, 0x19, 0, 4, 17, 0, 0, 0])),
    .recv (calm 200 (by decide : 201 ≤ _) fun _ => none) aClient (datagram (aMessage 8 len attrs))]

theorem permissions_unique_one :
    (exec (step openServer) {} (permissionRun 12 aPeerAttr)).allocs.length = 1 ∧
      ∀ al ∈ (exec (step openServer) {} (permissionRun 12 aPeerAttr)).allocs, (addrs al.perms).Nodup :=
  ⟨by decide +kernel, permissions_unique _ _ (by decide +kernel)⟩

/-- The peer is listed twice, and has two permissions. -/
theorem permission_twice :
    (exec (step openServer) {} (permissionRun 24 (aPeerAttr ++ aPeerAttr))).allocs.map (addrs ·.perms) =
      [[aPeer.addr, aPeer.addr]] := by
  decide +kernel

/-- **CreatePermission.** After a success response every peer that the request lists has a
permission for 300 seconds, and without one the permissions are those of before, exactly if no
permission stands in the table behind as many for its address as the request lists it, and ends
before that. -/
theorem createperm_atomic_iff (al : Allocation) :
    ((Granted t env ctx via msg al → ∀ peer ∈ listedPeers (msg.attrl.map (·.attr)),
        ∀ time ≤ env.now + 300,
          (permFind time peer (createpermRequest t env ctx via msg al).1.perms).1.isSome) ∧
      (¬ Granted t env ctx via msg al →
        (livePerms env.now (createpermRequest t env ctx via msg al).1.perms).Perm
          (livePerms env.now al.perms))) ↔
    (Granted t env ctx via msg al → ∀ peer ∈ listedPeers (msg.attrl.map (·.attr)), ∀ perm,
      (al.perms.filter (·.cmp peer))[listings peer (msg.attrl.map (·.attr))]? = some perm →
        env.now + 300 ≤ perm.expires) := by
  constructor
  · exact fun h hgranted peer hpeer =>
      (commit_until t env ctx via msg hgranted hpeer).1 (h.1 hgranted peer hpeer)
  · refine fun h => ⟨fun hgranted peer hpeer => ?_, rollback_live t env ctx via msg⟩
    exact (commit_until t env ctx via msg hgranted hpeer).2 (h hgranted peer hpeer)

/-- The peer has two permissions when a request with success lists it once: the one that is
refreshed is behind the other one, and data for the peer is dropped 201 seconds later. -/
theorem refreshed_permission_missed :
    let renew := .recv (calm 300 (by decide : 301 ≤ _) fun _ => none) aClient
      (datagram (aMessage 8 12 aPeerAttr))
    let send := .recv (calm 501 (by decide : 502 ≤ _) fun _ => none) aClient
      (datagram (aMessage 0x16 20 (aPeerAttr ++ [0, 0x13, 0, 2, 0x68, 0x69, 0, 0])))
    let run := permissionRun 24 (aPeerAttr ++ aPeerAttr) ++ [renew]
    (exec (step openServer) {} run).allocs.map (·.perms) = [[⟨aPeer, 500⟩, ⟨aPeer, 600⟩]] ∧
      (outs (step openServer) {} (run ++ [send])).drop 2 =
        [[.reply aClient ⟨8, 12, 0x2112a442, [1, 2, 3, 4, 5, 6, 7, 8, 9, 10, 11, 12]⟩
          ⟨none, [(.software, .str [])], none, false⟩ none], []] := by
  decide +kernel

end BareRTC.Restund
