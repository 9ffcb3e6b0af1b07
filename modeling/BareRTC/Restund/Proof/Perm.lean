import BareRTC.Restund.Turn

/-!
# CreatePermission: commit and rollback

While the attributes are scanned, the permissions of the peers are on a list and not in the table.
What is in the table and what is on the list without being new are together the permissions of
before (`Split`), so that a rollback restores them; an attribute that the scan passes has left a
permission for its peer on the list (`Covers`), so that a commit leaves one in the table that is
valid for `permLifetime`. Nothing else gets into the table (`Origin`).

A look-up finds the first permission for an address. Each attribute of the address takes the first
one out of the table (`attribApply_table`), so that a permission that more attributes would have
taken is before the one that is refreshed (`commit_until`).
-/

namespace BareRTC.Restund

open List

open Sdp (Sa)
open Stun (Msg)

abbrev livePerms (now : Nat) (perms : List Perm) : List Perm := live Perm.expires now perms

theorem permFind_sublist (now : Nat) (peer : Sa) (perms : List Perm) : (permFind now peer perms).2.Sublist perms :=
  findLive_sublist

variable {peer : Sa} {perm : Perm} {cp : Createperm}

theorem permFind_some {now : Nat} {perms perms' : List Perm} (h : permFind now peer perms = (some perm, perms')) :
    perms.find? (·.cmp peer) = some perm ∧ now ≤ perm.expires ∧ perms' = perms := findLive_eq_some h

theorem permFind_none {now : Nat} {perms perms' : List Perm} (h : permFind now peer perms = (none, perms')) :
    perms'.Sublist perms ∧ livePerms now perms' = livePerms now perms := by
  have hsub := permFind_sublist now peer perms
  have hlive : livePerms now (permFind now peer perms).2 = livePerms now perms := live_findLive
  rw [h] at hsub hlive
  exact ⟨hsub, hlive⟩

theorem addr_of_find {perms : List Perm} (h : perms.find? (·.cmp peer) = some perm) : perm.peer.addr = peer.addr := by
  simpa [Perm.cmp] using find?_some h

inductive AttribStep (now : Nat) (attr : Stun.Attr) (cp : Createperm) : Bool × Createperm → Prop
  | skip : xorPeerAddr attr = none → AttribStep now attr cp (false, cp)
  | stop {cp' : Createperm} : cp'.perml = cp.perml → cp'.perms.Sublist cp.perms →
      livePerms now cp'.perms = livePerms now cp.perms → AttribStep now attr cp (true, cp')
  | found {peer : Sa} {perm : Perm} : xorPeerAddr attr = some peer → cp.perms.find? (·.cmp peer) = some perm →
      AttribStep now attr cp
        (false, { cp with perms := cp.perms.eraseP (·.cmp peer), perml := cp.perml ++ [⟨perm, false⟩] })
  | created {peer : Sa} {perms : List Perm} : xorPeerAddr attr = some peer →
      permFind now peer cp.perms = (none, perms) →
      AttribStep now attr cp (false, { cp with perms, perml := cp.perml ++ [⟨permCreate now peer, true⟩] })

section
variable {now : Nat} {relAddr : Option Sa} {perms : List Perm} {attr : Stun.Attr} {r : Bool × Createperm}

theorem attribHandler_step (relAddr : Option Sa) (mem : Bool) (attr : Stun.Attr) (cp : Createperm) :
    AttribStep now attr cp (attribHandler now mem relAddr attr cp) := by
  unfold attribHandler
  split
  · exact .skip ‹_›
  rename_i peer hpeer
  split
  · exact .stop rfl (List.Sublist.refl _) rfl
  split
  · rename_i perm perms' hfind
    obtain ⟨hfound, -, rfl⟩ := permFind_some hfind
    exact .found hpeer hfound
  rename_i perms' hfind
  split
  · exact .stop rfl (permFind_none hfind).1 (permFind_none hfind).2
  · exact .created hpeer hfind

theorem attribApply_inv {mem : Nat → Bool} {Inv : Createperm → Prop} {attrs : List Stun.Attr}
    (hstep : ∀ attr ∈ attrs, ∀ cp r, AttribStep now attr cp r → Inv cp → Inv r.2) :
    ∀ (n : Nat) (cp : Createperm), Inv cp → Inv (attribApply now mem relAddr n attrs cp).2 := by
  induction attrs with
  | nil => exact fun _ _ h => h
  | cons attr attrs ih =>
    intro n cp h
    have hone := hstep attr mem_cons_self cp _ (attribHandler_step relAddr (mem n) attr cp) h
    unfold attribApply
    split
    · rename_i cp' hr
      rwa [hr] at hone
    rename_i cp' hr
    rw [hr] at hone
    exact ih (fun attr hattr => hstep attr (mem_cons_of_mem _ hattr)) _ _ hone

/-! ### What is kept -/

def Createperm.old (cp : Createperm) : List Perm := (cp.perml.filter (!·.new)).map (·.perm)

def Split (now : Nat) (perms : List Perm) (cp : Createperm) : Prop :=
  (livePerms now (cp.perms ++ cp.old)).Perm (livePerms now perms)

/-- A change of the table that removes expired permissions only, and a list with nothing but new
ones added -/
theorem Split.of_live {cp' : Createperm} (h : Split now perms cp) (les : List Listed)
    (hlive : livePerms now cp'.perms = livePerms now cp.perms) (hperml : cp'.perml = cp.perml ++ les)
    (hles : ∀ le ∈ les, le.new) : Split now perms cp' := by
  have hold : cp'.old = cp.old := by
    have hnone : les.filter (!·.new) = [] := filter_eq_nil_iff.2 fun le hle => by simp [hles le hle]
    simp [Createperm.old, hperml, hnone]
  unfold Split at h ⊢
  unfold livePerms live at h hlive ⊢
  rw [filter_append] at h ⊢
  rw [hold, hlive]
  exact h

theorem Split.move (h : Split now perms cp) (hfind : cp.perms.find? (·.cmp peer) = some perm) :
    Split now perms { cp with perms := cp.perms.eraseP (·.cmp peer), perml := cp.perml ++ [⟨perm, false⟩] } := by
  refine List.Perm.trans (List.Perm.filter _ ?_) h
  have hold : Createperm.old { cp with
      perms := cp.perms.eraseP (·.cmp peer), perml := cp.perml ++ [⟨perm, false⟩] } = cp.old ++ [perm] := by
    simp [Createperm.old]
  rw [hold]
  exact perm_move_of_find hfind cp.old

theorem Split.step (hr : AttribStep now attr cp r) (h : Split now perms cp) : Split now perms r.2 := by
  cases hr with
  | skip => exact h
  | stop hperml _ hlive => exact h.of_live [] hlive (by simp [hperml]) (by simp)
  | found _ hfind => exact h.move hfind
  | created _ hfind => exact h.of_live _ (permFind_none hfind).2 rfl (by simp)

/-! ### What is put on the list -/

def Covers (peer : Sa) (cp : Createperm) : Prop := ∃ le ∈ cp.perml, le.perm.peer.addr = peer.addr

theorem Covers.step (hr : AttribStep now attr cp r) (h : Covers peer cp) : Covers peer r.2 := by
  obtain ⟨le, hle, hpeer⟩ := h
  cases hr with
  | skip => exact ⟨le, hle, hpeer⟩
  | stop hperml _ _ => exact ⟨le, hperml ▸ hle, hpeer⟩
  | found | created => exact ⟨le, mem_append_left _ hle, hpeer⟩

theorem AttribStep.covers (hr : AttribStep now attr cp r) (hgo : r.1 = false)
    (hpeer : xorPeerAddr attr = some peer) : Covers peer r.2 := by
  cases hr with
  | skip hnone => rw [hnone] at hpeer; cases hpeer
  | stop => cases hgo
  | @found peer' perm hpeer' hfind =>
    obtain rfl : peer = peer' := Option.some.inj (hpeer.symm.trans hpeer')
    exact ⟨⟨perm, false⟩, by simp, addr_of_find hfind⟩
  | @created peer' perms' hpeer' _ =>
    obtain rfl : peer = peer' := Option.some.inj (hpeer.symm.trans hpeer')
    exact ⟨⟨permCreate now peer, true⟩, by simp, rfl⟩

theorem attribApply_covers {mem : Nat → Bool} :
    ∀ (attrs : List Stun.Attr) (n : Nat) (cp : Createperm),
    (attribApply now mem relAddr n attrs cp).1 = false → ∀ attr ∈ attrs,
    xorPeerAddr attr = some peer → Covers peer (attribApply now mem relAddr n attrs cp).2
  | attr :: attrs, n, cp, hend, attr', hattr, hpeer => by
    have hone : AttribStep now attr cp _ := attribHandler_step relAddr (mem n) attr cp
    unfold attribApply at hend ⊢
    split at hend
    · cases hend
    rename_i cp' hr
    rw [hr] at hone
    rcases mem_cons.1 hattr with rfl | hattr
    · exact attribApply_inv (fun _ _ _ _ hr h => h.step hr) _ _ (hone.covers rfl hpeer)
    · exact attribApply_covers attrs _ _ hend attr' hattr hpeer

def listedPeers (attrs : List Stun.Attr) : List Sa := attrs.filterMap xorPeerAddr

def listings (peer : Sa) (attrs : List Stun.Attr) : Nat :=
  (listedPeers attrs).countP (·.addr = peer.addr)

theorem filter_cmp_eraseP (perms : List Perm) (peer peer' : Sa) :
    (perms.eraseP (·.cmp peer')).filter (·.cmp peer) =
      (perms.filter (·.cmp peer)).drop (if peer'.addr = peer.addr then 1 else 0) := by
  split
  · rename_i haddr
    have hcmp : (Perm.cmp peer') = Perm.cmp peer := by
      funext perm
      rw [Perm.cmp, Perm.cmp, haddr]
    rw [hcmp]
    exact filter_eraseP_self
  · rename_i haddr
    refine filter_eraseP fun perm hperm => ?_
    simp only [Perm.cmp, decide_eq_true_eq, decide_eq_false_iff_not] at hperm ⊢
    exact fun heq => haddr (hperm.symm.trans heq)

theorem AttribStep.table (hr : AttribStep now attr cp r) (hgo : r.1 = false) :
    r.2.perms.filter (·.cmp peer) = (cp.perms.filter (·.cmp peer)).drop (listings peer [attr]) := by
  have hone {peer' : Sa} (hpeer : xorPeerAddr attr = some peer') :
      listings peer [attr] = if peer'.addr = peer.addr then 1 else 0 := by
    simp [listings, listedPeers, hpeer, countP_singleton]
  cases hr with
  | skip hnone => simp [listings, listedPeers, hnone]
  | stop => cases hgo
  | found hpeer _ =>
    rw [hone hpeer]
    exact filter_cmp_eraseP ..
  | created hpeer hfind =>
    rw [hone hpeer, findLive_eq_none hfind]
    exact filter_cmp_eraseP ..

/-- Each attribute takes the first permission for its address out of the table. -/
theorem attribApply_table {mem : Nat → Bool} (peer : Sa) :
    ∀ (attrs : List Stun.Attr) (n : Nat) (cp : Createperm),
    (attribApply now mem relAddr n attrs cp).1 = false →
    (attribApply now mem relAddr n attrs cp).2.perms.filter (·.cmp peer) =
      (cp.perms.filter (·.cmp peer)).drop (listings peer attrs)
  | [], _, _, _ => rfl
  | attr :: attrs, n, cp, hend => by
    have hone : AttribStep now attr cp _ := attribHandler_step relAddr (mem n) attr cp
    have hsum : listings peer (attr :: attrs) = listings peer [attr] + listings peer attrs := by
      simp only [listings, listedPeers, ← countP_append, ← filterMap_append, singleton_append]
    unfold attribApply at hend ⊢
    split at hend
    · cases hend
    rename_i cp' hr
    rw [hr] at hone
    rw [attribApply_table peer attrs _ _ hend, hone.table rfl, drop_drop, hsum]

structure Listed.From (now : Nat) (perms : List Perm) (peers : List Sa) (le : Listed) : Prop where
  old : le.new = false → le.perm ∈ perms
  new : le.new → le.perm.expires = now + permLifetime
  peer : ∃ peer ∈ peers, le.perm.peer.addr = peer.addr

structure Origin (now : Nat) (perms : List Perm) (peers : List Sa) (cp : Createperm) : Prop where
  table : ∀ perm ∈ cp.perms, perm ∈ perms
  listed : ∀ le ∈ cp.perml, le.From now perms peers

theorem Origin.step {peers : List Sa}
    (hr : AttribStep now attr cp r) (hattr : ∀ peer, xorPeerAddr attr = some peer → peer ∈ peers)
    (h : Origin now perms peers cp) : Origin now perms peers r.2 := by
  cases hr with
  | skip => exact h
  | stop hperml hsub _ => exact ⟨fun perm hperm => h.table perm (hsub.subset hperm), by rw [hperml]; exact h.listed⟩
  | @found peer perm hpeer hfind =>
    have hfrom : Listed.From now perms peers ⟨perm, false⟩ :=
      ⟨fun _ => h.table perm (mem_of_find?_eq_some hfind), (nomatch ·), peer, hattr peer hpeer, addr_of_find hfind⟩
    exact ⟨fun p hp => h.table p (eraseP_subset hp), forall_mem_append.2 ⟨h.listed, forall_mem_singleton.2 hfrom⟩⟩
  | @created peer perms' hpeer hfind =>
    have hfrom : Listed.From now perms peers ⟨permCreate now peer, true⟩ :=
      ⟨(nomatch ·), fun _ => rfl, peer, hattr peer hpeer, rfl⟩
    exact ⟨fun p hp => h.table p ((permFind_none hfind).1.subset hp),
      forall_mem_append.2 ⟨h.listed, forall_mem_singleton.2 hfrom⟩⟩

end

/-! ## The two passes -/

theorem foldl_rollback : cp.perml.foldl rollbackHandler cp.perms = cp.perms ++ cp.old := by
  obtain ⟨perml, perms, af⟩ := cp
  induction perml generalizing perms with
  | nil => simp [Createperm.old]
  | cons le perml ih =>
    have htail := ih (rollbackHandler perms le)
    cases hnew : le.new <;> simp_all [Createperm.old, rollbackHandler]

def committed (now : Nat) (le : Listed) : Perm := if le.new then le.perm else permRefresh now le.perm

theorem foldl_commit (now : Nat) (perml : List Listed) (perms : List Perm) :
    perml.foldl (commitHandler now) perms = perms ++ perml.map (committed now) := by
  induction perml generalizing perms with
  | nil => simp
  | cons le perml ih =>
    rw [foldl_cons, ih, commitHandler, append_assoc, map_cons, singleton_append, committed]

theorem committed_peer (now : Nat) (le : Listed) : (committed now le).peer = le.perm.peer := by
  unfold committed
  split <;> rfl

theorem committed_expires {now : Nat} {le : Listed} (h : le.new → le.perm.expires = now + permLifetime) :
    (committed now le).expires = now + permLifetime := by
  unfold committed
  split
  · rename_i hnew
    exact h hnew
  · rfl

/-! ## The request -/

def Reply.Plain (rep : Reply) : Prop := ∀ n, (Stun.Attrib.nonce, Stun.AttrVal.str n) ∉ rep.attrs

variable (t : Turnd) (env : Env) (ctx : Msgctx) (via : Via) (msg : Msg) (al : Allocation)

def scanned (al : Allocation) : Bool × Createperm :=
  attribApply env.now env.mem al.relAddr 0 (msg.attrl.map (·.attr)) { perms := al.perms }

def Granted : Prop :=
  (createpermRequest t env ctx via msg al).2 = stunReply t env ctx via msg [] ∧ env.reply = none

/-- `createperm_request` commits with the success response, or rolls back. -/
theorem createpermRequest_cases :
    ((scanned env msg al).1 = false ∧ env.reply = none ∧ createpermRequest t env ctx via msg al =
        ({ al with perms :=
          (scanned env msg al).2.perml.foldl (commitHandler env.now) (scanned env msg al).2.perms },
          stunReply t env ctx via msg [])) ∨
      (createpermRequest t env ctx via msg al).1 =
        { al with perms := (scanned env msg al).2.perms ++ (scanned env msg al).2.old } ∧
      ¬ Granted t env ctx via msg al := by
  have hreply : ∀ hfail cp, (hfail = false ∧ env.reply = none ∧
        createpermReply t env ctx via msg hfail cp = (none, stunReply t env ctx via msg [])) ∨
      ∃ err out, createpermReply t env ctx via msg hfail cp = (some err, out) ∧
        ¬ (out = stunReply t env ctx via msg [] ∧ env.reply = none) := by
    intro hfail cp
    unfold createpermReply
    split
    · exact .inr ⟨_, _, rfl, fun h => by simpa [stunEreply, stunReply] using h.1⟩
    split
    · exact .inr ⟨_, _, rfl, fun h => by simpa [stunEreply, stunReply] using h.1⟩
    split
    · exact .inr ⟨_, _, rfl, fun h => by simpa [stunEreply, stunReply] using h.1⟩
    rename_i hok _
    cases hsent : env.reply with
    | none => exact .inl ⟨by simpa using hok, rfl, rfl⟩
    | some err => exact .inr ⟨err, _, rfl, fun h => nomatch h.2⟩
  unfold Granted createpermRequest
  simp only
  rcases hreply (scanned env msg al).1 (scanned env msg al).2 with
    ⟨hok, hsent, heq⟩ | ⟨err, out, heq, hnot⟩
  · refine .inl ⟨hok, hsent, ?_⟩
    unfold scanned at heq
    rw [heq]
    rfl
  unfold scanned at heq
  rw [heq]
  refine .inr ⟨?_, hnot⟩
  show { al with perms := List.foldl rollbackHandler _ _ } = _
  rw [foldl_rollback]
  rfl

theorem createpermRequest_reply :
    ∃ rep : Reply, rep.Plain ∧ (createpermRequest t env ctx via msg al).2 = .reply via msg.hdr rep env.reply := by
  have hreply : ∀ hfail cp, ∃ rep : Reply, rep.Plain ∧
      (createpermReply t env ctx via msg hfail cp).2 = .reply via msg.hdr rep env.reply := by
    intro hfail cp
    unfold createpermReply
    split
    · exact ⟨_, by simp [Reply.Plain], rfl⟩
    split
    · exact ⟨_, by simp [Reply.Plain], rfl⟩
    · split <;> exact ⟨_, by simp [Reply.Plain], rfl⟩
  unfold createpermRequest
  simp only
  split <;> exact hreply _ _

variable {al}

theorem rollback_live (h : ¬ Granted t env ctx via msg al) :
    (livePerms env.now (createpermRequest t env ctx via msg al).1.perms).Perm
      (livePerms env.now al.perms) := by
  have hstart : Split env.now al.perms { perms := al.perms } := by
    simp [Split, Createperm.old]
  rcases createpermRequest_cases t env ctx via msg al with ⟨-, hsent, heq⟩ | ⟨heq, -⟩
  · exact absurd ⟨congrArg Prod.snd heq, hsent⟩ h
  rw [heq]
  exact attribApply_inv (fun _ _ _ _ hr h => h.step hr) _ _ hstart

variable (al) in
theorem scanned_origin : Origin env.now al.perms (listedPeers (msg.attrl.map (·.attr)))
    (scanned env msg al).2 :=
  attribApply_inv (fun attr hattr _ _ hr h => h.step hr fun _ hpeer =>
    mem_filterMap.2 ⟨attr, hattr, hpeer⟩) _ _ ⟨fun _ hp => hp, nofun⟩

/-- After a commit a look-up finds the first permission that the scan has left in the table, or else
one that is valid for its time. -/
theorem commit_until (h : Granted t env ctx via msg al) {peer : Sa}
    (hpeer : peer ∈ listedPeers (msg.attrl.map (·.attr))) :
    (∀ time ≤ env.now + permLifetime,
        (permFind time peer (createpermRequest t env ctx via msg al).1.perms).1.isSome) ↔
      ∀ perm, (al.perms.filter (·.cmp peer))[listings peer (msg.attrl.map (·.attr))]? = some perm →
        env.now + permLifetime ≤ perm.expires := by
  rcases createpermRequest_cases t env ctx via msg al with ⟨hok, -, heq⟩ | ⟨-, hnot⟩
  swap
  · exact absurd h hnot
  obtain ⟨attr, hattr, hattr_peer⟩ := mem_filterMap.1 hpeer
  obtain ⟨le, hle, hle_peer⟩ := attribApply_covers _ _ _ hok attr hattr hattr_peer
  -- the permissions for the address in the table: what the scan has left, and what was on the list
  have htable : (createpermRequest t env ctx via msg al).1.perms.find? (·.cmp peer) =
      ((al.perms.filter (·.cmp peer))[listings peer (msg.attrl.map (·.attr))]?).or
        (((scanned env msg al).2.perml.map (committed env.now)).find? (·.cmp peer)) := by
    rw [heq]
    show find? _ (foldl _ _ _) = _
    rw [foldl_commit, find?_append, ← head?_filter, scanned, attribApply_table peer _ _ _ hok,
      head?_drop]
  have hnew : ∃ perm, ((scanned env msg al).2.perml.map (committed env.now)).find? (·.cmp peer) =
      some perm ∧ perm.expires = env.now + permLifetime := by
    cases hfind : ((scanned env msg al).2.perml.map (committed env.now)).find? (·.cmp peer) with
    | none =>
      refine absurd (find?_eq_none.1 hfind _ (mem_map_of_mem hle)) ?_
      simp [Perm.cmp, committed_peer, hle_peer]
    | some perm =>
      obtain ⟨le', hle', rfl⟩ := mem_map.1 (mem_of_find?_eq_some hfind)
      exact ⟨_, rfl, committed_expires ((scanned_origin env msg al).listed le' hle').new⟩
  obtain ⟨perm, hfind, hexp⟩ := hnew
  refine findLive_until.trans ?_
  rw [htable, hfind]
  cases (al.perms.filter (·.cmp peer))[listings peer (msg.attrl.map (·.attr))]? with
  | none => simp [hexp]
  | some first => simp

variable (al)

/-- A permission in the table after the request was there before, or is of a peer that the request
lists and was installed or refreshed by it, with the success response. -/
theorem createperm_origin (perm : Perm) (h : perm ∈ (createpermRequest t env ctx via msg al).1.perms) :
    perm ∈ al.perms ∨ ((createpermRequest t env ctx via msg al).2 = stunReply t env ctx via msg [] ∧ env.reply = none ∧
      perm.expires = env.now + permLifetime ∧
      ∃ peer ∈ listedPeers (msg.attrl.map (·.attr)), perm.peer.addr = peer.addr) := by
  have horigin := scanned_origin env msg al
  rcases createpermRequest_cases t env ctx via msg al with ⟨hok, hsent, heq⟩ | ⟨heq, -⟩
  · rw [heq] at h ⊢
    replace h : perm ∈ (scanned env msg al).2.perml.foldl _ _ := h
    rw [foldl_commit] at h
    rcases mem_append.1 h with h | h
    · exact .inl (horigin.table perm h)
    obtain ⟨le, hle, rfl⟩ := mem_map.1 h
    obtain ⟨peer, hpeer, haddr⟩ := (horigin.listed le hle).peer
    exact .inr ⟨rfl, hsent, committed_expires (horigin.listed le hle).new, peer, hpeer, by rw [committed_peer, haddr]⟩
  rw [heq] at h
  rcases mem_append.1 h with h | h
  · exact .inl (horigin.table perm h)
  obtain ⟨le, hle, rfl⟩ := mem_map.1 h
  obtain ⟨hmem, hnew⟩ := mem_filter.1 hle
  exact .inl ((horigin.listed le hmem).old (by simpa using hnew))

end BareRTC.Restund
