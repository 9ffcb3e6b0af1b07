import BareRTC.Restund.Auth
import BareRTC.Restund.Proof.Perm

/-!
# Allocations and their sockets

What the requests do to the table of the allocations. Every allocation after one was there and has
gained nothing (`Kept`), or the request created it or was served on it (`Gained`). `Moves` carries
the invariant of allocations and sockets (`Server.Ok`): numbers are not used twice, and the handler
of a relay socket has the allocation that the socket belongs to as its argument.
-/

namespace BareRTC.Restund

open List

open Sdp (Sa)
open Stun (Attrib AttrVal Msg stunMsgMethod)

/-! ## Channels in two tables -/

instance : Membership Chan Chanlist := ⟨fun cl chan => chan ∈ cl.htNumb ∨ chan ∈ cl.htPeer⟩

namespace Chanlist

variable {cl cl' cl'' : Chanlist} {chan chan' : Chan} {o o' : Option Chan} {now : Nat}

def Unlinked (cl cl' : Chanlist) : Prop := ∃ gone : List Chan, cl' = gone.foldl unlink cl

theorem Unlinked.refl : Unlinked cl cl := ⟨[], rfl⟩

theorem Unlinked.trans (h : Unlinked cl cl') (h' : Unlinked cl' cl'') : Unlinked cl cl'' := by
  obtain ⟨gone, rfl⟩ := h
  obtain ⟨gone', rfl⟩ := h'
  exact ⟨gone ++ gone', foldl_append.symm⟩

theorem not_mem_empty : chan ∉ ({} : Chanlist) := fun h => h.elim nofun nofun

theorem mem_unlink (h : chan ∈ cl.unlink chan') : chan ∈ cl :=
  h.imp mem_of_mem_erase mem_of_mem_erase

theorem Unlinked.subset (h : Unlinked cl cl') (hchan : chan ∈ cl') : chan ∈ cl := by
  obtain ⟨gone, rfl⟩ := h
  induction gone generalizing cl with
  | nil => exact hchan
  | cons _ gone ih => exact mem_unlink (ih hchan)

theorem found_some (h : cl.found now o = (some chan, cl')) :
    o = some chan ∧ now ≤ chan.expires ∧ cl' = cl := by
  unfold found at h
  split at h
  · cases h
  split at h
  · cases h
  · cases h
    exact ⟨rfl, Nat.not_lt.1 ‹_›, rfl⟩

/-- A look-up destroys no channel that has not expired. -/
theorem found_looked (h : cl.found now o = (o', cl')) :
    Unlinked cl cl' ∧ ∀ chan ∈ cl, now ≤ chan.expires → chan ∈ cl' := by
  unfold found at h
  split at h
  · cases h
    exact ⟨.refl, fun _ h _ => h⟩
  rename_i gone
  split at h
  · cases h
    refine ⟨⟨[gone], rfl⟩, fun chan hchan hlive => ?_⟩
    have hne : chan ≠ gone := fun heq => by subst heq; omega
    exact hchan.imp (mem_erase_of_ne hne).2 (mem_erase_of_ne hne).2
  · cases h
    exact ⟨.refl, fun _ h _ => h⟩

/-- A look-up that finds nothing has removed what it came to. -/
theorem found_none (h : cl.found now o = (none, cl')) :
    cl' = o.elim cl cl.unlink := by
  unfold found at h
  split at h
  · cases h
    rfl
  split at h
  · cases h
    rfl
  · cases h

theorem mem_append (h : chan ∈ cl.append chan') : chan ∈ cl ∨ chan = chan' := by
  rcases h with h | h <;> rcases List.mem_append.1 h with h | h
  · exact .inl (.inl h)
  · exact .inr (mem_singleton.1 h)
  · exact .inl (.inr h)
  · exact .inr (mem_singleton.1 h)

theorem mem_refresh (h : chan ∈ cl.refresh now chan') : chan ∈ cl ∨ chan = chanRefresh now chan' := by
  rcases h with h | h <;> rcases mem_modifyFirst h with h | ⟨old, hfind, rfl⟩
  · exact .inl (.inl h)
  · exact .inr (congrArg _ (by simpa using find?_some hfind))
  · exact .inl (.inr h)
  · exact .inr (congrArg _ (by simpa using find?_some hfind))

end Chanlist

def Chan.key (chan : Chan) : UInt16 × Sa := (chan.numb, chan.peer)

theorem exists_key_modifyFirst {chans : List Chan} {p : Chan → Bool} {now : Nat} {chan : Chan}
    (h : chan ∈ chans) : ∃ chan' ∈ modifyFirst p (chanRefresh now) chans, chan'.key = chan.key := by
  rw [← mem_map, map_modifyFirst (f := chanRefresh now) fun _ => rfl]
  exact mem_map_of_mem h

theorem Chanlist.exists_key_refresh {cl : Chanlist} {now : Nat} {chan chan' : Chan} (h : chan ∈ cl) :
    ∃ c ∈ cl.refresh now chan', c.key = chan.key := by
  rcases h with h | h
  · obtain ⟨c, hc, hkey⟩ := exists_key_modifyFirst h
    exact ⟨c, .inl hc, hkey⟩
  · obtain ⟨c, hc, hkey⟩ := exists_key_modifyFirst h
    exact ⟨c, .inr hc, hkey⟩

/-! ## Allocations over time -/

structure Same (al al' : Allocation) : Prop where
  id : al'.id = al.id
  cliAddr : al'.cliAddr = al.cliAddr
  srvAddr : al'.srvAddr = al.srvAddr
  proto : al'.proto = al.proto
  username : al'.username = al.username
  relUs : al'.relUs = al.relUs
  rsvUs : al'.rsvUs = al.rsvUs ∨ al'.rsvUs = none

structure Kept (al al' : Allocation) : Prop extends Same al al' where
  tmr : al'.tmr = al.tmr
  perms : al'.perms.Sublist al.perms
  chans : al.chans.Unlinked al'.chans

theorem Same.refl {al : Allocation} : Same al al := ⟨rfl, rfl, rfl, rfl, rfl, rfl, .inl rfl⟩

variable {al al' : Allocation} {now : Nat}

def Fixed (al al' : Allocation) : Prop := al' = { al with tmr := al'.tmr, perms := al'.perms, chans := al'.chans }

theorem Fixed.same (h : Fixed al al') : Same al al' := by
  rw [h]
  exact ⟨rfl, rfl, rfl, rfl, rfl, rfl, .inl rfl⟩

structure KeptLive (now : Nat) (al al' : Allocation) : Prop extends Kept al al' where
  live : ∀ chan ∈ al.chans, now ≤ chan.expires → chan ∈ al'.chans

theorem KeptLive.refl (al : Allocation) : KeptLive now al al :=
  ⟨⟨.refl, rfl, List.Sublist.refl _, .refl⟩, fun _ h _ => h⟩

structure Looked (now : Nat) (al al' : Allocation) : Prop where
  eq : al' = { al with perms := al'.perms, chans := al'.chans }
  perms : al'.perms.Sublist al.perms
  chans : al.chans.Unlinked al'.chans
  live : ∀ chan ∈ al.chans, now ≤ chan.expires → chan ∈ al'.chans

theorem Looked.fixed (h : Looked now al al') : Fixed al al' := by
  rw [Fixed, h.eq]

theorem Looked.of_found {perms : List Perm} {cl : Chanlist} {o o' : Option Chan}
    (hperms : perms.Sublist al.perms) (h : al.chans.found now o = (o', cl)) :
    Looked now al { al with perms, chans := cl } :=
  ⟨rfl, hperms, (Chanlist.found_looked h).1, (Chanlist.found_looked h).2⟩

theorem Looked.keptLive (h : Looked now al al') : KeptLive now al al' :=
  ⟨⟨h.fixed.same, by rw [h.eq], h.perms, h.chans⟩, h.live⟩

/-! ## Sockets -/

def Allocation.tuple (al : Allocation) : Sa × Sa × Stun.Proto := (al.cliAddr, al.srvAddr, al.proto)

def Allocation.socks (al : Allocation) : List (Nat × Option Nat) :=
  (al.relUs.map (·, some al.id)).toList ++ (al.rsvUs.map (·, none)).toList

structure Allocation.Relayed (al : Allocation) : Prop where
  relUs : al.relUs.isSome
  relAddr : al.relAddr.isSome
  rsv : al.rsvUs.isSome = al.rsvAddr.isSome

structure Server.Ok (s : Server) : Prop where
  ids : (s.allocs.map (·.id)).Nodup
  ids_lt : ∀ al ∈ s.allocs, al.id < s.next
  tuples : (s.allocs.map (·.tuple)).Nodup
  count : s.alloccCur = UInt32.ofNat s.allocs.length
  relayed : ∀ al ∈ s.allocs, al.Relayed
  socks : s.socks.Perm (s.allocs.flatMap (·.socks))
  apart : (s.socks.map (·.1)).Nodup
  socks_lt : ∀ p ∈ s.socks, p.1 < s.next

namespace Server.Ok

variable {s s' : Server} {rest : List Allocation} {us : Nat} {x x' : Option Nat}

theorem init : Server.Ok {} :=
  have hnone : ∀ {α : Type} {P : α → Prop}, ∀ a ∈ ([] : List α), P a := nofun
  ⟨nodup_nil, hnone, nodup_nil, rfl, hnone, .nil, nodup_nil, hnone⟩

theorem eq_of_id (hs : s.Ok) (h : al ∈ s.allocs) (h' : al' ∈ s.allocs) (hid : al.id = al'.id) :
    al = al' := inj_on_of_nodup_map hs.ids h h' hid

theorem of_perm (hs : s.Ok) (ha : s'.allocs.Perm s.allocs) (hsocks : s'.socks.Perm s.socks)
    (hcount : s'.alloccCur = s.alloccCur) (hnext : s.next ≤ s'.next) : s'.Ok where
  ids := (ha.map _).nodup_iff.2 hs.ids
  ids_lt al h := (hs.ids_lt al (ha.mem_iff.1 h)).trans_le hnext
  tuples := (ha.map _).nodup_iff.2 hs.tuples
  count := by rw [hcount, hs.count, ha.length_eq]
  relayed al h := hs.relayed al (ha.mem_iff.1 h)
  socks := hsocks.trans (hs.socks.trans (ha.symm.flatMap_right _))
  apart := (hsocks.map _).nodup_iff.2 hs.apart
  socks_lt p h := (hs.socks_lt p (hsocks.mem_iff.1 h)).trans_le hnext

/-- An allocation and the others -/
theorem split (hs : s.Ok) (hal : al ∈ s.allocs) : ∃ rest, s.allocs.Perm (al :: rest) ∧ ∀ b ∈ rest, b.id ≠ al.id := by
  obtain ⟨as, bs, hsplit⟩ := append_of_mem hal
  have hperm : s.allocs.Perm (al :: (as ++ bs)) := hsplit ▸ perm_middle
  have hids := (hperm.map (·.id)).nodup_iff.1 hs.ids
  exact ⟨as ++ bs, hperm, fun b hb heq => (nodup_cons.1 hids).1 (mem_map.2 ⟨b, hb, heq⟩)⟩

theorem cons (hs : s.Ok) (al : Allocation) {n : Nat} (hid : al.id < n) (hne : ∀ b ∈ s.allocs, b.id ≠ al.id ∧ b.tuple ≠ al.tuple)
    (hrel : al.Relayed) (hapart : ((al.socks ++ s.socks).map (·.1)).Nodup) (hlt : ∀ p ∈ al.socks, p.1 < n)
    (hn : s.next ≤ n) : Server.Ok ⟨al :: s.allocs, al.socks ++ s.socks, n, s.alloccCur + 1⟩ where
  ids := nodup_cons.2 ⟨fun h => by obtain ⟨b, hb, heq⟩ := mem_map.1 h; exact (hne b hb).1 heq, hs.ids⟩
  ids_lt := forall_mem_cons.2 ⟨hid, fun b hb => (hs.ids_lt b hb).trans_le hn⟩
  tuples := nodup_cons.2 ⟨fun h => by obtain ⟨b, hb, heq⟩ := mem_map.1 h; exact (hne b hb).2 heq, hs.tuples⟩
  count := by rw [length_cons, UInt32.ofNat_add, hs.count]; rfl
  relayed := forall_mem_cons.2 ⟨hrel, hs.relayed⟩
  socks := hs.socks.append_left _
  apart := hapart
  socks_lt := forall_mem_append.2 ⟨hlt, fun p hp => (hs.socks_lt p hp).trans_le hn⟩

/-- One of the allocations is taken away, with its sockets. -/
theorem uncons (hs : s.Ok) (ha : s.allocs.Perm (al :: rest)) : ∃ socks, s.socks.Perm (al.socks ++ socks) ∧
    ((al.socks ++ socks).map (·.1)).Nodup ∧ Server.Ok ⟨rest, socks, s.next, s.alloccCur - 1⟩ := by
  have hsocks : s.socks.Perm (al.socks ++ rest.flatMap (·.socks)) := hs.socks.trans (ha.flatMap_right _)
  have hapart := (hsocks.map (·.1)).nodup_iff.1 hs.apart
  refine ⟨_, hsocks, hapart, ?_⟩
  exact {
    ids := ((ha.map (·.id)).nodup_iff.1 hs.ids).of_cons
    ids_lt := fun b hb => hs.ids_lt b (ha.mem_iff.2 (mem_cons_of_mem _ hb))
    tuples := ((ha.map (·.tuple)).nodup_iff.1 hs.tuples).of_cons
    count := by rw [hs.count, ha.length_eq, length_cons, UInt32.ofNat_add]; exact UInt32.add_sub_cancel _ _
    relayed := fun b hb => hs.relayed b (ha.mem_iff.2 (mem_cons_of_mem _ hb))
    socks := .refl _
    apart := by rw [map_append] at hapart; exact hapart.of_append_right
    socks_lt := fun p hp => hs.socks_lt p (hsocks.mem_iff.2 (mem_append_right _ hp)) }

theorem mem_socks (hs : s.Ok) (hal : al ∈ s.allocs) (h : (us, x) ∈ al.socks) : (us, x) ∈ s.socks :=
  hs.socks.mem_iff.2 (mem_flatMap.2 ⟨al, hal, h⟩)

theorem owner (hs : s.Ok) (h : al ∈ s.allocs) (h' : al' ∈ s.allocs) (hus : (us, x) ∈ al.socks)
    (hus' : (us, x') ∈ al'.socks) : al = al' := by
  obtain ⟨rest, ha, hne⟩ := hs.split h
  obtain ⟨socks, -, hapart, hrest⟩ := hs.uncons ha
  rw [map_append] at hapart
  rcases mem_cons.1 (ha.mem_iff.1 h') with rfl | h'
  · rfl
  · exact absurd (mem_map_of_mem (f := (·.1)) (hrest.mem_socks h' hus'))
      (disjoint_of_nodup_append hapart (mem_map_of_mem (f := (·.1)) hus))

theorem mem_allocation_socks {id : Nat} : (us, some id) ∈ al.socks ↔ al.id = id ∧ al.relUs = some us := by
  cases hrel : al.relUs <;> simp [Allocation.socks, hrel, eq_comm, and_comm]

theorem args (hs : s.Ok) {id : Nat} (h : (us, some id) ∈ s.socks) : ∃ al ∈ s.allocs, al.id = id ∧ al.relUs = some us := by
  obtain ⟨al, hal, h⟩ := mem_flatMap.1 (hs.socks.mem_iff.1 h)
  exact ⟨al, hal, mem_allocation_socks.1 h⟩

theorem map (hs : s.Ok) {f : Allocation → Allocation} (hf : ∀ al ∈ s.allocs, Fixed al (f al)) :
    Server.Ok { s with allocs := s.allocs.map f } := by
  have hmap {β : Type} (g : Allocation → β) (hg : ∀ al al', Fixed al al' → g al' = g al) :
      (s.allocs.map f).map g = s.allocs.map g := by
    rw [map_map]
    exact map_congr_left fun al hal => hg _ _ (hf al hal)
  have hids := hmap (·.id) fun _ _ h => h.same.id
  have htuples := hmap (·.tuple) fun _ _ h => by rw [h]; rfl
  have hsocks := hmap (·.socks) fun _ _ h => by rw [h]; rfl
  exact {
    ids := hids ▸ hs.ids
    ids_lt := forall_mem_map.2 fun al hal => (hf al hal).same.id ▸ hs.ids_lt al hal
    tuples := htuples ▸ hs.tuples
    count := by rw [length_map]; exact hs.count
    relayed := forall_mem_map.2 fun al hal => by
      rw [hf al hal]
      exact ⟨(hs.relayed al hal).relUs, (hs.relayed al hal).relAddr, (hs.relayed al hal).rsv⟩
    socks := by rw [flatMap_def, hsocks, ← flatMap_def]; exact hs.socks
    apart := hs.apart
    socks_lt := hs.socks_lt }

theorem put_perm (al' : Allocation) (ha : s.allocs.Perm (al :: rest)) (hne : ∀ b ∈ rest, b.id ≠ al.id)
    (hid : al'.id = al.id) : (s.put al').allocs.Perm (al' :: rest) := by
  refine (ha.map _).trans (.of_eq ?_)
  rw [map_cons, if_pos hid.symm]
  exact congrArg _ ((map_congr_left fun b hb => if_neg (hid ▸ hne b hb)).trans (map_id rest))

theorem put (hs : s.Ok) (hal : al ∈ s.allocs) (h : Fixed al al') : (s.put al').Ok := by
  refine hs.map fun b hb => ?_
  split
  · rename_i hid
    rwa [hs.eq_of_id hb hal (hid.trans h.same.id)]
  · exact rfl

theorem destroy (hs : s.Ok) (hal : al ∈ s.allocs) : (s.destroy al).Ok := by
  obtain ⟨rest, ha, hne⟩ := hs.split hal
  obtain ⟨socks, hsocks, hapart, hok⟩ := hs.uncons ha
  have hfilter : ∀ p : Nat × Option Nat, decide (some p.1 ≠ al.relUs ∧ some p.1 ≠ al.rsvUs) ↔
      p.1 ∉ al.socks.map (·.1) := by
    intro p
    cases hrel : al.relUs <;> cases hrsv : al.rsvUs <;> simp [Allocation.socks, hrel, hrsv]
  rw [map_append] at hapart
  refine hok.of_perm ((ha.filter _).trans (.of_eq ?_)) ((hsocks.filter _).trans (.of_eq ?_)) rfl (le_refl _)
  · rw [filter_cons_of_neg (by simp), filter_eq_self.2 fun b hb => by simpa using hne b hb]
  · rw [filter_append, filter_eq_nil_iff.2 fun p hp => ?_, nil_append, filter_eq_self.2 fun p hp => ?_]
    · rw [hfilter]
      exact fun h => disjoint_of_nodup_append hapart h (mem_map_of_mem hp)
    · rw [hfilter]
      exact fun h => h (mem_map_of_mem hp)

end Server.Ok

/-! ## Steps of the table -/

structure Moves (now : Nat) (s s' : Server) (New Gone : Allocation → Prop) : Prop where
  ok : s'.Ok
  next : s.next ≤ s'.next
  from_ : ∀ al' ∈ s'.allocs, (∃ al ∈ s.allocs, KeptLive now al al') ∨ New al'
  stays : ∀ al ∈ s.allocs, (∃ al' ∈ s'.allocs, al'.id = al.id) ∨ Gone al

namespace Moves

variable {s s' : Server} {New New' Gone : Allocation → Prop}

theorem refl (hs : s.Ok) : Moves now s s New Gone :=
  ⟨hs, le_refl _, fun al hal => .inl ⟨al, hal, .refl al⟩, fun al hal => .inl ⟨al, hal, rfl⟩⟩

theorem mono (h : Moves now s s' New Gone) (hnew : ∀ al, New al → New' al) : Moves now s s' New' Gone :=
  ⟨h.ok, h.next, fun al hal => (h.from_ al hal).imp_right (hnew al), h.stays⟩

theorem put (hs : s.Ok) (hal : al ∈ s.allocs) (h : Fixed al al')
    (hnew : KeptLive now al al' ∨ New al') : Moves now s (s.put al') New Gone := by
  refine ⟨hs.put hal h, le_refl _, fun b' hb' => ?_, fun b hb => .inl ⟨_, mem_map_of_mem hb, ?_⟩⟩
  · obtain ⟨b, hb, rfl⟩ := mem_map.1 hb'
    split
    · exact hnew.imp_left fun hkept => ⟨al, hal, hkept⟩
    · exact .inl ⟨b, hb, .refl b⟩
  · split
    · exact ‹b.id = al'.id›.symm
    · rfl

theorem put_looked (hs : s.Ok) (hal : al ∈ s.allocs) (h : Looked now al al') : Moves now s (s.put al') New Gone :=
  put hs hal h.fixed (.inl h.keptLive)

theorem add {f : Allocation → Allocation} (hf : ∀ b ∈ s.allocs, KeptLive now b (f b)) (hnew : New al) (hok : s'.Ok)
    (hnext : s.next ≤ s'.next) (hallocs : s'.allocs = s.allocs.map f ++ [al]) : Moves now s s' New Gone := by
  refine ⟨hok, hnext, ?_, fun b hb => .inl ⟨f b, ?_, (hf b hb).id⟩⟩
  · rw [hallocs]
    exact forall_mem_append.2 ⟨forall_mem_map.2 fun b hb => .inl ⟨b, hb, hf b hb⟩, forall_mem_singleton.2 (.inr hnew)⟩
  · rw [hallocs]
    exact mem_append_left _ (mem_map_of_mem hb)

theorem destroy (h : Moves now s s' New Gone) (hal : al ∈ s'.allocs)
    (hid : ∀ b ∈ s.allocs, b.id ≠ al.id) : Moves now s (s'.destroy al) New Gone := by
  refine ⟨h.ok.destroy hal, h.next, fun b' hb' => h.from_ b' (mem_filter.1 hb').1, fun b hb => ?_⟩
  refine (h.stays b hb).imp_left fun ⟨b', hb', hid'⟩ => ⟨b', mem_filter.2 ⟨hb', ?_⟩, hid'⟩
  simpa [hid'] using hid b hb

end Moves

theorem mem_of_allocationFind {s : Server} {via : Via} (h : allocationFind s via = some al) :
    al ∈ s.allocs ∧ al.cmp via := by
  refine ⟨mem_of_find?_eq_some h, ?_⟩
  simpa using find?_some h

/-! ## Requests on an allocation -/

def requestedPeers (msg : Msg) : List Sa :=
  if stunMsgMethod msg = methodCreateperm then listedPeers (msg.attrl.map (·.attr))
  else if stunMsgMethod msg = methodChanbind then (msgAttr msg .xorPeerAddr valXorAddr).toList
  else []

structure Binds (msg : Msg) (numb : UInt16) (peer : Sa) : Prop where
  method : stunMsgMethod msg = methodChanbind
  numb : msgAttr msg .channelNumber valNum16 = some numb
  peer : msgAttr msg .xorPeerAddr valXorAddr = some peer

def IsSuccess (via : Via) (msg : Msg) (out : Out) : Prop :=
  ∃ rep : Reply, rep.err = none ∧ out = .reply via msg.hdr rep none

structure Serves (env : Env) (via : Via) (msg : Msg) (al : Allocation) (r : Allocation × Out) : Prop where
  fixed : Fixed al r.1
  reply : ∃ rep : Reply, rep.Plain ∧ r.2 = .reply via msg.hdr rep env.reply
  perms : ∀ perm ∈ r.1.perms, perm ∈ al.perms ∨ IsSuccess via msg r.2 ∧ perm.expires = env.now + permLifetime ∧
    ∃ peer ∈ requestedPeers msg, perm.peer.addr = peer.addr
  chans : ∀ chan ∈ r.1.chans, chan ∈ al.chans ∨ IsSuccess via msg r.2 ∧ chan.expires = env.now + chanLifetime ∧
    Binds msg chan.numb chan.peer
  live : ∀ chan ∈ al.chans, env.now ≤ chan.expires → ∃ chan' ∈ r.1.chans, chan'.key = chan.key

variable (t : Turnd) (env : Env) (ctx : Msgctx) (via : Via) (msg : Msg) {rep : Reply}

theorem Serves.looked (h : Looked env.now al al') (hrep : rep.Plain) :
    Serves env via msg al (al', .reply via msg.hdr rep env.reply) :=
  ⟨h.fixed, ⟨rep, hrep, rfl⟩, fun _ hp => .inl (h.perms.subset hp), fun _ hc => .inl (h.chans.subset hc),
    fun chan hc hexp => ⟨chan, h.live chan hc hexp, rfl⟩⟩

theorem Serves.refused (hrep : rep.Plain) :
    Serves env via msg al (al, .reply via msg.hdr rep env.reply) :=
  looked env via msg ⟨rfl, List.Sublist.refl _, .refl, fun _ h _ => h⟩ hrep

theorem refreshRequest_serves : Serves env via msg al (refreshRequest t env ctx via msg al) := by
  unfold refreshRequest
  split
  · exact .refused env via msg (by simp [Reply.Plain])
  · exact ⟨rfl, ⟨_, by simp [Reply.Plain], rfl⟩, fun _ h => .inl h, fun _ h => .inl h,
      fun chan h _ => ⟨chan, h, rfl⟩⟩

theorem createpermRequest_serves (hmet : stunMsgMethod msg = methodCreateperm) :
    Serves env via msg al (createpermRequest t env ctx via msg al) := by
  obtain ⟨perms, heq⟩ : ∃ perms, (createpermRequest t env ctx via msg al).1 = { al with perms } := by
    rcases createpermRequest_cases t env ctx via msg al with ⟨-, -, heq⟩ | ⟨heq, -⟩
    · exact ⟨_, congrArg (·.1) heq⟩
    · exact ⟨_, heq⟩
  refine ⟨by rw [heq]; rfl, createpermRequest_reply t env ctx via msg al, fun perm hperm => ?_, ?_, ?_⟩
  · refine (createperm_origin t env ctx via msg al perm hperm).imp_right fun ⟨hreply, hsent, hexp, hpeer⟩ => ?_
    refine ⟨⟨_, rfl, by rw [hreply, stunReply, hsent]⟩, hexp, ?_⟩
    rw [requestedPeers, if_pos hmet]
    exact hpeer
  · rw [heq]
    exact fun _ h => .inl h
  · rw [heq]
    exact fun chan h _ => ⟨chan, h, rfl⟩

variable {peer : Sa} {s : Server} {alr : Allocation} {numb : UInt16}

theorem mem_bound_perms {perms : List Perm} {none : Bool} {perm : Perm} (h : perm ∈ if none then perms ++ [permCreate now peer]
      else modifyFirst (·.cmp peer) (permRefresh now) perms) :
    perm ∈ perms ∨ perm.peer.addr = peer.addr ∧ perm.expires = now + permLifetime := by
  split at h
  · rcases mem_append.1 h with h | h
    · exact .inl h
    · obtain rfl := mem_singleton.1 h
      exact .inr ⟨rfl, rfl⟩
  rcases mem_modifyFirst h with h | ⟨old, hfind, rfl⟩
  · exact .inl h
  · have haddr : old.peer.addr = peer.addr := addr_of_find hfind
    exact .inr ⟨haddr, rfl⟩

def boundChans (now : Nat) (numb : UInt16) (peer : Sa) (cl : Chanlist) : Option Chan → Chanlist
  | none => cl.append (chanCreate now numb peer)
  | some chan => cl.refresh now chan

/-- The channel that is refreshed is the one that was found by its number and by its peer. -/
theorem mem_boundChans {cl cl' cl'' : Chanlist} {early : Nat} {o : Option Chan} {chan : Chan}
    (hnumb : chanNumbFind early numb cl = (o, cl')) (hpeer : chanPeerFind now peer cl' = (o, cl''))
    (h : chan ∈ boundChans now numb peer cl'' o) :
    chan ∈ cl'' ∨ chan = chanCreate now numb peer := by
  cases o with
  | none => exact Chanlist.mem_append h
  | some c =>
    have hc_numb : c.numb = numb := by simpa using find?_some (Chanlist.found_some hnumb).1
    have hc_peer : c.peer = peer := by simpa using find?_some (Chanlist.found_some hpeer).1
    refine (Chanlist.mem_refresh h).imp_right fun hchan => ?_
    rw [hchan, chanRefresh, chanCreate, ← hc_numb, ← hc_peer]

theorem exists_key_boundChans {cl : Chanlist} {o : Option Chan} {chan : Chan} (h : chan ∈ cl) :
    ∃ chan' ∈ boundChans now numb peer cl o, chan'.key = chan.key := by
  cases o with
  | none => exact ⟨chan, h.imp (mem_append_left _) (mem_append_left _), rfl⟩
  | some => exact Chanlist.exists_key_refresh h

theorem chanbindBind_serves (al : Allocation) (h : Binds msg numb peer) :
    Serves env via msg al (chanbindBind t env ctx via msg al numb peer) := by
  obtain ⟨chNumb, cl, hnumb⟩ : ∃ o cl, chanNumbFind (env.now - env.tick) numb al.chans = (o, cl) :=
    ⟨_, _, rfl⟩
  obtain ⟨chPeer, cl', hpeer⟩ : ∃ o cl', chanPeerFind env.now peer cl = (o, cl') := ⟨_, _, rfl⟩
  obtain ⟨hunlinked, hstay⟩ := Chanlist.found_looked hnumb
  obtain ⟨hunlinked', hstay'⟩ := Chanlist.found_looked hpeer
  have hchans := hunlinked.trans hunlinked'
  have hlive : ∀ chan ∈ al.chans, env.now ≤ chan.expires → chan ∈ cl' := fun chan hchan hexp =>
    hstay' chan (hstay chan hchan ((Nat.sub_le _ _).trans hexp)) hexp
  have hperms := permFind_sublist env.now peer al.perms
  unfold chanbindBind
  simp only [hnumb, hpeer]
  split
  · exact .looked env via msg ⟨rfl, List.Sublist.refl _, hchans, hlive⟩ (by simp [Reply.Plain])
  rename_i hsame
  split
  · exact .looked env via msg ⟨rfl, List.Sublist.refl _, hchans, hlive⟩ (by simp [Reply.Plain])
  split
  · exact .looked env via msg ⟨rfl, hperms, hchans, hlive⟩ (by simp [Reply.Plain])
  split
  · exact .looked env via msg ⟨rfl, hperms, hchans, hlive⟩ (by simp [Reply.Plain])
  rename_i hreply
  obtain rfl : chNumb = chPeer := by simpa using hsame
  have hsuccess : IsSuccess via msg (stunReply t env ctx via msg []) :=
    ⟨_, rfl, by rw [stunReply, hreply]⟩
  refine ⟨rfl, ⟨_, by simp [Reply.Plain], rfl⟩, fun perm hperm => ?_, fun chan hchan => ?_,
    fun chan hchan hexp => exists_key_boundChans (hlive chan hchan hexp)⟩
  · have hpeers : peer ∈ requestedPeers msg := by
      simp [requestedPeers, h.method, h.peer, methodChanbind, methodCreateperm]
    exact (mem_bound_perms hperm).imp (hperms.subset ·) fun hnew =>
      ⟨hsuccess, hnew.2, peer, hpeers, hnew.1⟩
  · refine (mem_boundChans hnumb hpeer hchan).imp hchans.subset ?_
    rintro rfl
    exact ⟨hsuccess, rfl, h⟩

theorem chanbindRequest_serves (hmet : stunMsgMethod msg = methodChanbind) (al : Allocation) :
    Serves env via msg al (chanbindRequest t env ctx via msg al) := by
  unfold chanbindRequest
  split
  · rename_i numb peer hnumb hpeer
    split
    · exact .refused env via msg (by simp [Reply.Plain])
    split
    · exact .refused env via msg (by simp [Reply.Plain])
    split
    · exact .refused env via msg (by simp [Reply.Plain])
    · exact chanbindBind_serves t env ctx via msg al ⟨hmet, hnumb, hpeer⟩
  · exact .refused env via msg (by simp [Reply.Plain])

theorem allocationRequest_serves (hmet : stunMsgMethod msg ∈ [methodRefresh, methodCreateperm, methodChanbind])
    (al : Allocation) : Serves env via msg al (allocationRequest t env ctx via msg al) := by
  unfold allocationRequest
  split
  · exact refreshRequest_serves t env ctx via msg
  rename_i hrefresh
  split
  · rename_i hcreate
    exact createpermRequest_serves t env ctx via msg hcreate
  rename_i hcreate
  refine chanbindRequest_serves t env ctx via msg ?_ al
  simpa [hrefresh, hcreate] using hmet

/-! ## Responses -/

def Replies (au : Auth) (env : Env) (via : Via) (outs : List Out) : Prop :=
  ∀ o ∈ outs, ∃ req rep err, o = .reply via req rep err ∧
    ∀ n, (Attrib.nonce, AttrVal.str n) ∈ rep.attrs → n = mknonce au env.now via.src

structure Answers (au : Auth) (s : Server) (New : Allocation → Prop) (r : Server × List Out) : Prop where
  moves : Moves env.now s r.1 New (fun _ => False)
  replies : Replies au env via r.2

variable {env via} {au : Auth}

theorem Replies.nil : Replies au env via [] := forall_mem_nil _

theorem Replies.single {req : Stun.Hdr} {err : Option Errno}
    (h : ∀ n, (Attrib.nonce, AttrVal.str n) ∈ rep.attrs → n = mknonce au env.now via.src) :
    Replies au env via [.reply via req rep err] := by
  intro o ho
  exact ⟨req, rep, err, mem_singleton.1 ho, h⟩

theorem Answers.refused {New : Allocation → Prop} {req : Stun.Hdr} {err : Option Errno} (hs : s.Ok)
    (h : ∀ n, (Attrib.nonce, AttrVal.str n) ∈ rep.attrs → n = mknonce au env.now via.src) :
    Answers env via au s New (s, [.reply via req rep err]) := ⟨.refl hs, .single h⟩

variable (env via au)

theorem allocateReply_replies (alx : Allocation) (lifetime : UInt32) :
    Replies au env via (allocateReply t env ctx via msg alx lifetime).2 := by
  have htoken : ∀ n, (Attrib.nonce, AttrVal.str n) ∉ rsvToken via alx := by
    intro n
    unfold rsvToken
    split <;> simp
  unfold allocateReply
  split
  · exact .nil
  · refine .single fun n hn => absurd hn ?_
    simp [htoken n]

/-! ## Allocate -/

structure Created (s : Server) (al : Allocation) : Prop where
  id : al.id = s.next
  cmp : al.cmp via
  username : al.username = msgAttr msg .username valStr
  perms : al.perms = []
  chans : al.chans = {}

theorem created_newAllocation (s : Server) (lifetime : UInt32) :
    Created via msg s (newAllocation env via msg s.next lifetime) := by
  refine ⟨rfl, ?_, rfl, rfl, rfl⟩
  simp [Allocation.cmp, newAllocation]

theorem put_self (h : ∀ b ∈ s.allocs, b.id = al.id → b = al) : s.put al = s := by
  have hallocs : (s.allocs.map fun b => if b.id = al.id then al else b) = s.allocs := by
    conv_rhs => rw [← map_id s.allocs]
    refine map_congr_left fun b hb => ?_
    split
    · exact (h b hb ‹_›).symm
    · rfl
  show { s with allocs := _ } = s
  rw [hallocs]

theorem Created.ne (hs : s.Ok) (hal : Created via msg s al) (hfind : allocationFind s via = none) :
    ∀ b ∈ s.allocs, b.id ≠ al.id ∧ b.tuple ≠ al.tuple := by
  intro b hb
  refine ⟨hal.id ▸ (hs.ids_lt b hb).ne, fun htuple => ?_⟩
  have hcmp := hal.cmp
  have hnot := find?_eq_none.1 hfind b hb
  simp only [Allocation.cmp, Allocation.tuple, Prod.mk.injEq] at hcmp hnot htuple
  rw [htuple.1, htuple.2.1, htuple.2.2] at hnot
  exact hnot hcmp

/-- A new allocation gets the socket that another one had reserved. -/
theorem reserved_moves (hs : s.Ok) (hal : Created via msg s al) (hfind : allocationFind s via = none)
    (hnone : al.rsvUs = none ∧ al.rsvAddr = none) (halr : alr ∈ s.allocs) {us : Nat} (hus : alr.rsvUs = some us)
    (haddr : alr.rsvAddr.isSome) :
    Moves now s
      { allocs := (s.put { alr with rsvUs := none, rsvAddr := none }).allocs ++
          [{ al with relUs := some us, relAddr := alr.rsvAddr }]
        socks := s.socks.map fun p => if some p.1 = some us then (p.1, some al.id) else p
        next := s.next + 3
        alloccCur := s.alloccCur + 1 }
      (Created via msg s) (fun _ => False) := by
  obtain ⟨rest, ha, hne⟩ := hs.split halr
  obtain ⟨socks, hsocks, hapart, hrest⟩ := hs.uncons ha
  obtain ⟨rel, hrel⟩ := Option.isSome_iff_exists.1 (hs.relayed alr halr).relUs
  have hfresh := hal.ne via msg hs hfind
  have htuples := nodup_cons.1 ((ha.map (·.tuple)).nodup_iff.1 hs.tuples)
  have hold : alr.socks = [(rel, some alr.id), (us, none)] := by simp [Allocation.socks, hrel, hus]
  have hlt : ∀ p ∈ alr.socks, p.1 < s.next := fun p hp => hs.socks_lt p (hs.mem_socks halr hp)
  rw [hold] at hsocks hapart hlt
  simp only [forall_mem_cons] at hlt
  simp only [cons_append, nil_append, map_cons, nodup_cons, mem_cons, not_or] at hapart
  obtain ⟨⟨hrel_us, hrel_socks⟩, hus_socks, hnodup⟩ := hapart
  -- the two allocations are put to the others again, each with one socket
  have hput := hrest.cons { alr with rsvUs := none, rsvAddr := none } (n := s.next) (hs.ids_lt alr halr)
    (fun b hb => ⟨hne b hb, fun heq => htuples.1 (mem_map.2 ⟨b, hb, heq⟩)⟩)
    ⟨(hs.relayed alr halr).relUs, (hs.relayed alr halr).relAddr, rfl⟩
    (by simpa [Allocation.socks, hrel] using ⟨by simpa using hrel_socks, hnodup⟩)
    (by simpa [Allocation.socks, hrel] using hlt.1) (le_refl _)
  have hadd := hput.cons { al with relUs := some us, relAddr := alr.rsvAddr } (n := s.next + 3)
    (by rw [hal.id]; exact Nat.lt_add_of_pos_right (by decide))
    (forall_mem_cons.2 ⟨hfresh alr halr, fun b hb => hfresh b (ha.mem_iff.2 (mem_cons_of_mem _ hb))⟩)
    ⟨rfl, haddr, by rw [hnone.1, hnone.2]; rfl⟩
    (by simpa [Allocation.socks, hrel, hnone.1, Ne.symm hrel_us, hnodup] using
      ⟨by simpa using hus_socks, by simpa using hrel_socks⟩)
    (by simpa [Allocation.socks, hnone.1] using hlt.2.1.trans (Nat.lt_add_of_pos_right (by decide)))
    (Nat.le_add_right _ _)
  have hnew : Created via msg s { al with relUs := some us, relAddr := alr.rsvAddr } :=
    ⟨hal.id, hal.cmp, hal.username, hal.perms, hal.chans⟩
  refine .add (f := fun b => if b.id = alr.id then { alr with rsvUs := none, rsvAddr := none } else b) (fun b hb => ?_)
    hnew (hadd.of_perm ?_ ?_ ?_ (le_refl _)) (Nat.le_add_right _ _) rfl
  · split
    · rw [hs.eq_of_id hb halr ‹_›]
      exact ⟨⟨⟨rfl, rfl, rfl, rfl, rfl, rfl, .inr rfl⟩, rfl, List.Sublist.refl _, .refl⟩, fun _ h _ => h⟩
    · exact .refl b
  · exact (perm_append_singleton _ _).trans ((Server.Ok.put_perm { alr with rsvUs := none, rsvAddr := none } ha hne rfl).cons _)
  · refine (hsocks.map _).trans (.trans (.of_eq ?_) ((Perm.swap (us, some al.id) (rel, some alr.id) socks).trans (.of_eq ?_)))
    · have hrest : socks.map (fun p => if some p.1 = some us then (p.1, some al.id) else p) = socks :=
        (map_congr_left fun p hp => if_neg fun heq => hus_socks (mem_map.2 ⟨p, hp, Option.some.inj heq⟩)).trans (map_id _)
      simp only [cons_append, nil_append, map_cons, hrest]
      simp [hrel_us]
    · simp [Allocation.socks, hrel, hnone.1]
  · exact (congrArg (· + 1) (UInt32.sub_add_cancel _ _)).symm

theorem opened_moves (hs : s.Ok) (hal : Created via msg s al) (hfind : allocationFind s via = none)
    {relAddr : Sa} {rsvAddr : Option Sa} :
    Moves now s
      { allocs := s.allocs ++ [{ al with
          relUs := some (s.next + 1), relAddr := some relAddr, rsvAddr, rsvUs := rsvAddr.map fun _ => s.next + 1 + 1 }]
        socks := s.socks ++ [(s.next + 1, some al.id)] ++
          ((rsvAddr.map fun _ => s.next + 1 + 1).map fun us => (us, none)).toList
        next := s.next + 3
        alloccCur := s.alloccCur + 1 }
      (Created via msg s) (fun _ => False) := by
  have hlt : ∀ us x, (us, x) ∈ s.socks → us < s.next := fun _ _ h => hs.socks_lt _ h
  have hnew : Created via msg s { al with
      relUs := some (s.next + 1), relAddr := some relAddr, rsvAddr, rsvUs := rsvAddr.map fun _ => s.next + 1 + 1 } :=
    ⟨hal.id, hal.cmp, hal.username, hal.perms, hal.chans⟩
  have hadd := hs.cons _ (n := s.next + 3) (hal.id ▸ Nat.lt_add_of_pos_right (by decide)) (hnew.ne via msg hs hfind)
    ⟨rfl, rfl, by simp⟩ ?_ ?_ (Nat.le_add_right _ _)
  · refine .add (f := id) (fun b _ => .refl b) hnew
      (hadd.of_perm (perm_append_singleton _ _) ?_ rfl (le_refl _)) (Nat.le_add_right _ _) (by rw [map_id])
    rw [append_assoc]
    exact perm_append_comm
  · cases rsvAddr <;> simp [Allocation.socks, hs.apart] <;> grind
  · cases rsvAddr <;> simp [Allocation.socks]

theorem relayOpen_moves (now : Nat) {s' : Server} {rsvt : Option UInt64} {even : Option Bool} (hs : s.Ok)
    (hal : Created via msg s al) (hfind : allocationFind s via = none) (hnone : al.rsvUs = none ∧ al.rsvAddr = none)
    (h : relayOpen t env s al rsvt even = .ok (s', al')) : al'.id = al.id ∧ al' ∈ s'.allocs ∧
      ((al'.relAddr = none ∧ al'.relUs = none ∧ al'.rsvUs = none ∧ s' = { s with allocs := s.allocs ++ [al'] }) ∨
        Moves now s { s' with next := s.next + 3, alloccCur := s.alloccCur + 1 } (Created via msg s) (fun _ => False)) := by
  unfold relayOpen at h
  split at h
  · split at h
    · cases h
    rename_i alr hlook
    cases h
    refine ⟨rfl, by simp, ?_⟩
    have halr := mem_append.1 (mem_of_find?_eq_some hlook)
    have hrsv : alr.rsvUs.isSome = alr.rsvAddr.isSome := halr.elim (fun h => (hs.relayed alr h).rsv) fun h => by
      rw [mem_singleton.1 h, hnone.1, hnone.2]
      rfl
    cases hus : alr.rsvUs with
    | none =>
      have haddr : alr.rsvAddr = none := by simpa [hus] using hrsv
      have hself : ({ alr with rsvUs := none, rsvAddr := none } : Allocation) = alr := by rw [← hus, ← haddr]
      refine .inl ⟨haddr, rfl, hnone.1, ?_⟩
      rw [hself, put_self fun b hb hid => ?_]
      · simp
      · rcases halr with halr | halr
        · exact hs.eq_of_id hb halr hid
        · exact absurd (mem_singleton.1 halr ▸ hid) (hal.ne via msg hs hfind b hb).1
    | some us =>
      have haddr : alr.rsvAddr.isSome := by rw [← hrsv, hus]; rfl
      rcases halr with halr | halr
      · exact .inr (reserved_moves via msg hs hal hfind hnone halr hus haddr)
      · rw [mem_singleton.1 halr, hnone.1] at hus
        cases hus
  split at h
  · cases h
  · cases h
    exact ⟨rfl, by simp, .inr (opened_moves via msg hs hal hfind)⟩

theorem allocateCreate_answers (hs : s.Ok) (hfind : allocationFind s via = none) (lifetime : UInt32)
    (rsvt : Option UInt64) (even : Option Bool) :
    Answers env via au s (Created via msg s) (allocateCreate t env ctx via msg s lifetime rsvt even) := by
  unfold allocateCreate
  split
  · exact .refused hs (by simp)
  split
  · exact .refused hs (by simp)
  rename_i s' al hopen
  refine ⟨?_, allocateReply_replies t env ctx via msg au al lifetime⟩
  have hnew := created_newAllocation env via msg s lifetime
  have hne := hnew.ne via msg hs hfind
  obtain ⟨hid, hal, ⟨haddr, hrel, hrsv, rfl⟩ | hmoves⟩ :=
    relayOpen_moves t env via msg env.now hs hnew hfind ⟨rfl, rfl⟩ hopen
  · -- the response cannot be encoded, and nothing is left of the allocation
    have hback : Server.destroy { s with allocs := s.allocs ++ [al], next := s.next + 3, alloccCur := s.alloccCur + 1 } al =
        { s with next := s.next + 3 } := by
      have hold : ∀ b ∈ s.allocs, ¬ b.id = al.id := fun b hb => hid ▸ (hne b hb).1
      simpa [Server.destroy, hrel, hrsv] using hold
    simp only [allocateReply, haddr, Option.isSome_some, if_true, hback]
    exact ⟨hs.of_perm (.refl _) (.refl _) rfl (Nat.le_add_right _ _), Nat.le_add_right _ _,
      fun b hb => .inl ⟨b, hb, .refl b⟩, fun b hb => .inl ⟨b, hb, rfl⟩⟩
  simp only
  split
  · exact hmoves.destroy hal fun b hb => hid ▸ (hne b hb).1
  · exact hmoves

theorem allocateRequest_answers (hs : s.Ok) (alx : Option Allocation) (hfind : alx = none → allocationFind s via = none) :
    Answers env via au s (Created via msg s) (allocateRequest t env ctx via msg s alx) := by
  unfold allocateRequest
  split
  · split
    · exact ⟨.refl hs, allocateReply_replies t env ctx via msg au _ _⟩
    · exact .refused hs (by simp)
  simp only
  split
  · exact .refused hs (by simp)
  split
  · exact .refused hs (by simp)
  split
  · exact .refused hs (by simp)
  split
  · exact .refused hs (by simp)
  split
  · exact .refused hs (by simp)
  · exact allocateCreate_answers t env ctx via msg au hs (hfind rfl) _ _ _

/-! ## The handler -/

inductive Gained (s : Server) (outs : List Out) (al' : Allocation) : Prop
  | created : Created via msg s al' → Gained s outs al'
  | served {al : Allocation} : stunMsgMethod msg ∈ [methodRefresh, methodCreateperm, methodChanbind] →
      al ∈ s.allocs → al.cmp via → wrongCredentials ctx msg al = false →
      (allocationRequest t env ctx via msg al).2 ∈ outs → al' = (allocationRequest t env ctx via msg al).1 →
      Gained s outs al'

theorem turnRequestHandler_answers (hs : s.Ok) :
    Answers env via au s (Gained t env ctx via msg s (turnRequestHandler t env ctx via msg s).2.2)
      (turnRequestHandler t env ctx via msg s).2 := by
  unfold turnRequestHandler
  split
  · exact ⟨.refl hs, .nil⟩
  rename_i hmet
  split
  · exact .refused hs (by simp)
  split
  · split
    · exact .refused hs (by simp)
    · have hnew := allocateRequest_answers t env ctx via msg au hs none fun _ => ‹_›
      exact ⟨hnew.moves.mono fun _ h => .created h, hnew.replies⟩
  rename_i al hfind
  obtain ⟨hal, hcmp⟩ := mem_of_allocationFind hfind
  split
  · exact .refused hs (by simp)
  rename_i hcred
  split
  · have hold := allocateRequest_answers t env ctx via msg au hs (some al) fun h => absurd h (Option.some_ne_none al)
    exact ⟨hold.moves.mono fun _ h => .created h, hold.replies⟩
  rename_i hallocate
  have hmet' : stunMsgMethod msg ∈ [methodRefresh, methodCreateperm, methodChanbind] :=
    (mem_cons.1 (Decidable.of_not_not hmet)).resolve_left hallocate
  have hserves := allocationRequest_serves t env ctx via msg hmet' al
  refine ⟨.put hs hal hserves.fixed (.inr (.served hmet' hal hcmp (by simpa using hcred) mem_cons_self rfl)), ?_⟩
  obtain ⟨rep, hplain, hrep⟩ := hserves.reply
  simp only [hrep]
  exact .single fun n hn => absurd hn (hplain n)

theorem turnRequestHandler_false {s' : Server} {outs : List Out}
    (h : turnRequestHandler t env ctx via msg s = (false, s', outs)) : s' = s ∧ outs = [] := by
  unfold turnRequestHandler at h
  split at h
  · cases h
    exact ⟨rfl, rfl⟩
  split at h
  · cases h
  split at h
  · split at h <;> cases h
  split at h
  · cases h
  · split at h <;> cases h

end BareRTC.Restund
