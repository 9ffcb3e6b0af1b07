import BareRTC.Signal.Proof.Frame

/-!
# Transactions and their replies

A slot of `mJanusTransactionMap` with an id holds a live record with that id; a slot that was
completed has an empty id and a dangling pointer (`TransactionMap.Inv`). `strncmp` with the length
of the received value takes a message for an answer to every id that begins with it, and a message
without a transaction for an answer to slot 0. As long as no message is a proper prefix of an id,
or empty, every reply goes to the transaction it names, once (`answers_iff`).
-/

namespace BareRTC.Signal

open List

open EStateM (Result)

theorem length_newId (rnd : Nat → Nat) : (newId rnd).length = 12 := by
  simp [newId, generateString, RTC_JANUS_TRANSACTION_ID_LEN]

theorem newId_ne_nil (rnd : Nat → Nat) : newId rnd ≠ [] := ne_nil_of_length_pos (by rw [length_newId]; omega)

/-! ## The map -/

structure TransactionMap.Inv (map : TransactionMap) : Prop where
  wf : map.jts.WF
  slot : ∀ i jt, map.jts.slot i = some jt → jt.val.onSuccess.slot = i
  length : ∀ i, map.jtId i = [] ∨ (map.jtId i).length = 12
  pending : ∀ i, map.jtId i ≠ [] →
    ∃ jt, map.jts.slot i = some jt ∧ map.jts.Live jt ∧ jt.val.transactionId = map.jtId i
  completed : ∀ i jt, map.jtId i = [] → map.jts.slot i = some jt → ¬ map.jts.Live jt

namespace TransactionMap

variable (map : TransactionMap) {i j : Fin 8}

@[simp] theorem store_jtId (i : Fin 8) (jt : RtcJanusTransaction) : (map.store i jt).jtId i = jt.transactionId :=
  Function.update_self _ _ _

theorem store_jtId_ne (h : j ≠ i) (jt : RtcJanusTransaction) : (map.store i jt).jtId j = map.jtId j :=
  Function.update_of_ne h _ _

@[simp] theorem release_jtId (i : Fin 8) (jt : Cell RtcJanusTransaction) : (map.release i jt).jtId i = [] :=
  Function.update_self _ _ _

theorem release_jtId_ne (h : j ≠ i) (jt : Cell RtcJanusTransaction) : (map.release i jt).jtId j = map.jtId j :=
  Function.update_of_ne h _ _

theorem Inv.empty : (⟨fun _ => [], .empty⟩ : TransactionMap).Inv where
  wf := .empty
  slot := nofun
  length _ := .inl rfl
  pending _ h := absurd rfl h
  completed := nofun

theorem Inv.eq_of_isPrefixOf {map : TransactionMap} (h : map.Inv)
    (hi : map.jtId i ≠ []) (hij : map.jtId i <+: map.jtId j) : map.jtId j = map.jtId i := by
  have hlen := hij.length_le
  rcases h.length i with hi' | hi'
  · exact absurd hi' hi
  rcases h.length j with hj | hj
  · rw [hj, length_nil] at hlen
    omega
  · exact (hij.eq_of_length (hi'.trans hj.symm)).symm

theorem Inv.store {map : TransactionMap} (h : map.Inv) {cb : Callback} {rnd : Nat → Nat} :
    (map.store cb.slot ⟨newId rnd, cb⟩).Inv where
  wf := h.wf.put
  slot i jt hjt := by
    rcases Pool.put_slot_cases hjt with ⟨rfl, rfl⟩ | ⟨-, hjt⟩
    · rfl
    · exact h.slot i jt hjt
  length i := by
    by_cases hi : i = cb.slot
    · exact .inr (by rw [hi, store_jtId, length_newId])
    · rw [store_jtId_ne map hi]
      exact h.length i
  pending i hne := by
    by_cases hi : i = cb.slot
    · subst hi
      exact ⟨_, Pool.put_slot _ _, h.wf.live_new _, (store_jtId _ _ _).symm⟩
    have hid := store_jtId_ne map hi ⟨newId rnd, cb⟩
    rw [hid] at hne
    obtain ⟨jt, hjt, hlive, he⟩ := h.pending i hne
    exact ⟨jt, (Pool.put_slot_ne _ hi).trans hjt, hlive, he.trans hid.symm⟩
  completed i jt hnil hjt := by
    rcases Pool.put_slot_cases hjt with ⟨rfl, -⟩ | ⟨hi, hjt⟩
    · exact absurd ((store_jtId _ _ _).symm.trans hnil) (newId_ne_nil rnd)
    · exact h.completed i jt ((store_jtId_ne map hi _).symm.trans hnil) hjt

theorem Inv.release {map : TransactionMap} (h : map.Inv) {jt : Cell RtcJanusTransaction}
    (hjt : map.jts.slot i = some jt) : (map.release i jt).Inv where
  wf := h.wf.free hjt
  slot := h.slot
  length j := by
    by_cases hj : j = i
    · subst hj
      exact .inl (release_jtId _ _ _)
    · rw [release_jtId_ne map hj]
      exact h.length j
  pending j hne := by
    by_cases hj : j = i
    · subst hj
      exact absurd (release_jtId _ _ _) hne
    have hid := release_jtId_ne map hj jt
    rw [hid] at hne
    obtain ⟨jt', hjt', hlive, he⟩ := h.pending j hne
    exact ⟨jt', hjt', h.wf.live_free hjt hjt' hj hlive, he.trans hid.symm⟩
  completed j jt' hnil hjt' := by
    by_cases hj : j = i
    · subst hj
      obtain rfl : jt = jt' := Option.some.inj (hjt.symm.trans hjt')
      exact Pool.not_live_free
    · exact fun hl => h.completed j jt' ((release_jtId_ne map hj jt).symm.trans hnil) hjt' fun hm =>
        hl (mem_cons_of_mem _ hm)

end TransactionMap

/-! ## What callbacks and events leave alone -/

def invoked (evs : List Ev) : List (Cell RtcJanusTransaction) :=
  evs.filterMap fun
    | .onSuccess _ jt => some jt
    | .onError _ jt => some jt
    | _ => none

variable {id : UInt64} {l' : List Ev} {o : Obs} {r : Request} {t : Bytes}

@[simp] theorem invoked_nil : invoked [] = [] := rfl
@[simp] theorem invoked_append (l : List Ev) : invoked (l ++ l') = invoked l ++ invoked l' := filterMap_append
@[simp] theorem invoked_sent : invoked [.sent r] = [] := rfl
@[simp] theorem invoked_subscribed : invoked [.subscribed id t] = [] := rfl
@[simp] theorem invoked_observer : invoked [.observer o] = [] := rfl
@[simp] theorem invoked_onSuccess (i : Fin 8) (jt : Cell RtcJanusTransaction) : invoked [.onSuccess i jt] = [jt] := rfl
@[simp] theorem invoked_onError (i : Fin 8) (jt : Cell RtcJanusTransaction) : invoked [.onError i jt] = [jt] := rfl

def subscribed (evs : List Ev) : List (UInt64 × Bytes) :=
  evs.filterMap fun
    | .subscribed id t => some (id, t)
    | _ => none

@[simp] theorem subscribed_nil : subscribed [] = [] := rfl
@[simp] theorem subscribed_append (l : List Ev) : subscribed (l ++ l') = subscribed l ++ subscribed l' :=
  filterMap_append
@[simp] theorem subscribed_sent : subscribed [.sent r] = [] := rfl
@[simp] theorem subscribed_observer : subscribed [.observer o] = [] := rfl
@[simp] theorem subscribed_subscribed : subscribed [.subscribed id t] = [(id, t)] := rfl
@[simp] theorem subscribed_onSuccess (i : Fin 8) (jt : Cell RtcJanusTransaction) :
    subscribed [.onSuccess i jt] = [] := rfl
@[simp] theorem subscribed_onError (i : Fin 8) (jt : Cell RtcJanusTransaction) : subscribed [.onError i jt] = [] := rfl

theorem Conn.connected_of_settings {c c' : Conn} (h : c.settings = c'.settings) : c.mRTCConnected = c'.mRTCConnected :=
  congrArg (·.2.2.2.2) h

structure Frame (W : Set (Fin 8)) (rnd : Nat → Nat) (s s' : St) : Prop where
  inv : s.mJanusTransactionMap.Inv → s'.mJanusTransactionMap.Inv
  invoked : invoked s'.evs = invoked s.evs
  freed : s'.mJanusTransactionMap.jts.freed = s.mJanusTransactionMap.jts.freed
  slots : ∀ j ∉ W, s'.mJanusTransactionMap.jts.slot j = s.mJanusTransactionMap.jts.slot j
  ids : ∀ j, s'.mJanusTransactionMap.jtId j = s.mJanusTransactionMap.jtId j ∨
    j ∈ W ∧ s'.mJanusTransactionMap.jtId j = newId rnd
  used : ∀ j, s.mJanusTransactionMap.jts.slot j ≠ none → s'.mJanusTransactionMap.jts.slot j ≠ none
  connected : s'.conn.mRTCConnected = s.conn.mRTCConnected
  settings : Callback.subscriberCreateHandle.slot ∉ W →
    s'.conn.settings = s.conn.settings ∧ subscribed s'.evs = subscribed s.evs

def NotFreed (e : Fault) : Prop := ∀ jt, e ≠ .freedTransaction jt

section
variable {W : Set (Fin 8)} {rnd : Nat → Nat} (cb : Callback) (jh : Cell RtcJanusHandle)

theorem Frame.of_map {s s' : St} (hmap : s'.mJanusTransactionMap = s.mJanusTransactionMap)
    (hev : Signal.invoked s'.evs = Signal.invoked s.evs)
    (hconn : s'.conn.mRTCConnected = s.conn.mRTCConnected)
    (hset : Callback.subscriberCreateHandle.slot ∉ W →
      s'.conn.settings = s.conn.settings ∧ subscribed s'.evs = subscribed s.evs) :
    Frame W rnd s s' where
  inv h := hmap ▸ h
  invoked := hev
  freed := by rw [hmap]
  slots j _ := by rw [hmap]
  ids j := by rw [hmap]; exact .inl rfl
  used j h := by rwa [hmap]
  connected := hconn
  settings := hset

theorem Frame.trans {s1 s2 s3 : St} (h : Frame W rnd s1 s2) (h' : Frame W rnd s2 s3) : Frame W rnd s1 s3 where
  inv hs := h'.inv (h.inv hs)
  invoked := h'.invoked.trans h.invoked
  freed := h'.freed.trans h.freed
  slots j hj := (h'.slots j hj).trans (h.slots j hj)
  ids j := by
    rcases h'.ids j with he | he
    · rw [he]
      exact h.ids j
    · exact .inr he
  used j hj := h'.used j (h.used j hj)
  connected := h'.connected.trans h.connected
  settings hW := ⟨(h'.settings hW).1.trans (h.settings hW).1, (h'.settings hW).2.trans (h.settings hW).2⟩

theorem Frame.closed : Closed (Frame W rnd) NotFreed where
  refl _ := .of_map rfl rfl rfl fun _ => ⟨rfl, rfl⟩
  trans := Frame.trans
  observer _ _ := .of_map rfl (by simp) rfl fun _ => ⟨rfl, by simp⟩
  sent _ _ := .of_map rfl (by simp) rfl fun _ => ⟨rfl, by simp⟩
  conn _ c h _ := .of_map rfl rfl (Conn.connected_of_settings h) fun _ => ⟨h, rfl⟩
  overflow := nofun

theorem Frame.storeTransaction {cb : Callback} (hcb : cb.slot ∈ W) :
    Safe (Frame W rnd) NotFreed (storeTransaction cb rnd) := by
  refine Safe.modify fun s => ?_
  have hne : ∀ j ∉ W, j ≠ cb.slot := fun j hj he => hj (he ▸ hcb)
  refine ⟨fun h => h.store, rfl, rfl, fun j hj => Pool.put_slot_ne _ (hne j hj),
    fun j => ?_, fun j hj => ?_, rfl, fun _ => ⟨rfl, rfl⟩⟩
  · by_cases h : j = cb.slot
    · subst h
      exact .inr ⟨hcb, TransactionMap.store_jtId _ _ _⟩
    · exact .inl (TransactionMap.store_jtId_ne _ h _)
  by_cases h : j = cb.slot
  · subst h
    exact ne_of_eq_of_ne (Pool.put_slot _ _) (Option.some_ne_none _)
  · exact ne_of_eq_of_ne (Pool.put_slot_ne _ h) hj

theorem Frame.storeHandle (slot : Fin 2) (id : UInt64) (role : Role) :
    Safe (Frame W rnd) NotFreed (storeHandle slot id role) :=
  Safe.modify fun _ => .of_map rfl rfl rfl fun _ => ⟨rfl, rfl⟩

theorem Frame.releaseHandle : Safe (Frame W rnd) NotFreed (releaseHandle jh) :=
  Safe.modify fun _ => .of_map rfl rfl rfl fun _ => ⟨rfl, rfl⟩

theorem Frame.eventHandle (m : Msg) : Safe (Frame W rnd) NotFreed (eventHandle m) :=
  Frame.closed.eventHandle nofun Frame.releaseHandle nofun

theorem Frame.subscriberCreateHandle (hW : Callback.subscriberCreateHandle.slot ∈ W)
    (feedId : UInt64) : Safe (Frame W rnd) NotFreed (subscriberCreateHandle rnd feedId) :=
  Frame.closed.subscriberCreateHandle
    (fun _ => Safe.modify fun _ => .of_map rfl (by simp) rfl fun h => absurd hW h)
    (fun _ => Safe.modify fun _ => .of_map rfl rfl rfl fun h => absurd hW h)
    (Frame.storeTransaction hW)

def Callback.writes (cb : Callback) : Set (Fin 8) := {j | ∃ cb' ∈ cb.next, cb'.slot = j}

theorem Callback.notMem_writes : cb.slot ∉ cb.writes ∧ Callback.subscriberCreateHandle.slot ∉ cb.writes := by
  constructor <;> rintro ⟨cb', h, he⟩ <;> cases cb <;> cases h <;> cases he

theorem Frame.runCallback (rnd : Nat → Nat) (m : Msg) : Safe (Frame cb.writes rnd) NotFreed (runCallback rnd m cb) :=
  Frame.closed.runCallback (fun cb' hcb' =>
    Frame.storeTransaction (show cb'.slot ∈ cb.writes from ⟨cb', hcb', rfl⟩)) Frame.storeHandle

theorem Frame.acknowledge : Safe (Frame W rnd) NotFreed acknowledge :=
  Safe.modify fun _ => .of_map rfl rfl rfl fun _ => ⟨rfl, rfl⟩

theorem Frame.onKind {k : Kind} (hk : ¬ (k = .success ∨ k = .error)) (hW : Callback.subscriberCreateHandle.slot ∈ W)
    (m : Msg) : Safe (Frame W rnd) NotFreed (onKind rnd m k) :=
  Frame.closed.onKind (fun h => absurd h hk)
    (fun _ => Frame.closed.onEvent (Frame.eventHandle m) (Frame.subscriberCreateHandle hW))
    fun _ => Frame.acknowledge

end

/-! ## Completing a transaction -/

structure Completes (rnd : Nat → Nat) (s : St) (i : Fin 8) (jt : Cell RtcJanusTransaction)
    (r : Result Fault St Unit) : Prop where
  inv : (Result.state r).mJanusTransactionMap.Inv
  invoked : invoked (Result.state r).evs = invoked s.evs ++ [jt]
  notFreed : ∀ e ∈ Result.err r, NotFreed e
  freed : s.mJanusTransactionMap.jts.freed ⊆ (Result.state r).mJanusTransactionMap.jts.freed
  once : Result.err r ≠ none ∨ jt.serial ∈ (Result.state r).mJanusTransactionMap.jts.freed
  used : ∀ j, s.mJanusTransactionMap.jts.slot j ≠ none →
    (Result.state r).mJanusTransactionMap.jts.slot j ≠ none
  ids : ∀ j, j ≠ i →
    (Result.state r).mJanusTransactionMap.jtId j = s.mJanusTransactionMap.jtId j ∨
    j ∈ jt.val.onSuccess.writes ∧ (Result.state r).mJanusTransactionMap.jtId j = newId rnd
  id : (Result.state r).mJanusTransactionMap.jtId i = s.mJanusTransactionMap.jtId i ∨
    (Result.state r).mJanusTransactionMap.jtId i = []
  settings : (Result.state r).conn.settings = s.conn.settings ∧
    subscribed (Result.state r).evs = subscribed s.evs

theorem Completes.connected {rnd : Nat → Nat} {s : St} {i : Fin 8} {jt : Cell RtcJanusTransaction}
    {r : Result Fault St Unit} (h : Completes rnd s i jt r) :
    (Result.state r).conn.mRTCConnected = s.conn.mRTCConnected :=
  Conn.connected_of_settings h.settings.1

section
variable {s : St} {i : Fin 8} {jt : Cell RtcJanusTransaction}

theorem derefTransaction_live (h : s.mJanusTransactionMap.jts.Live jt) : derefTransaction jt s = .ok jt.val s := by
  rw [derefTransaction, get_bind, if_pos h]
  rfl

theorem derefTransaction_freed (h : ¬ s.mJanusTransactionMap.jts.Live jt) :
    derefTransaction jt s = .error (.freedTransaction jt) s := by
  rw [derefTransaction, get_bind, if_neg h]
  rfl

theorem succeed_live (rnd : Nat → Nat) (m : Msg) (hjt : s.mJanusTransactionMap.jts.slot i = some jt)
    (hl : s.mJanusTransactionMap.jts.Live jt) :
    succeed rnd m i s = (runCallback rnd m jt.val.onSuccess >>= fun _ => releaseTransaction i jt)
      { s with evs := s.evs ++ [.onSuccess i jt] } := by
  rw [succeed, get_bind]
  simp only [hjt]
  rw [bind_of_ok (derefTransaction_live hl)]
  rfl

theorem succeed_freed (rnd : Nat → Nat) (m : Msg) (hjt : s.mJanusTransactionMap.jts.slot i = some jt)
    (hl : ¬ s.mJanusTransactionMap.jts.Live jt) :
    succeed rnd m i s = .error (.freedTransaction jt) s := by
  rw [succeed, get_bind]
  simp only [hjt]
  rw [bind_of_error (derefTransaction_freed hl)]

theorem failWith_live (hl : s.mJanusTransactionMap.jts.Live jt) :
    failWith i jt s = .ok () { s with
      mJanusTransactionMap := s.mJanusTransactionMap.release i jt
      evs := s.evs ++ [.onError i jt] } := by
  rw [failWith, bind_of_ok (derefTransaction_live hl)]
  rfl

theorem failWith_freed (i : Fin 8) (hl : ¬ s.mJanusTransactionMap.jts.Live jt) :
    failWith i jt s = .error (.freedTransaction jt) s := by
  rw [failWith, bind_of_error (derefTransaction_freed hl)]

variable (hinv : s.mJanusTransactionMap.Inv) (hjt : s.mJanusTransactionMap.jts.slot i = some jt)
  (hl : s.mJanusTransactionMap.jts.Live jt)
include hinv hjt hl

theorem succeed_completes (rnd : Nat → Nat) (m : Msg) : Completes rnd s i jt (succeed rnd m i s) := by
  rw [succeed_live rnd m hjt hl]
  have hframe := Frame.runCallback jt.val.onSuccess rnd m
  have hslot : i ∉ jt.val.onSuccess.writes := hinv.slot i jt hjt ▸ jt.val.onSuccess.notMem_writes.1
  cases hr : runCallback rnd m jt.val.onSuccess { s with evs := s.evs ++ [.onSuccess i jt] } with
  | ok u s2 =>
    have h := hframe.ok hr
    rw [bind_of_ok hr]
    refine ⟨(h.inv hinv).release ((h.slots i hslot).trans hjt), ?_, nofun, ?_,
      .inr mem_cons_self, h.used, fun j hj => ?_, .inr (TransactionMap.release_jtId _ _ _), ?_⟩
    · exact h.invoked.trans (by simp)
    · exact subset_cons_of_subset _ fun n hn => h.freed.symm ▸ hn
    · have hid := TransactionMap.release_jtId_ne s2.mJanusTransactionMap hj jt
      exact hid.symm ▸ h.ids j
    · obtain ⟨hset, hsub⟩ := h.settings jt.val.onSuccess.notMem_writes.2
      exact ⟨hset, hsub.trans (by simp)⟩
  | error e s2 =>
    obtain ⟨h, he⟩ := hframe.error hr
    rw [bind_of_error hr]
    obtain ⟨hset, hsub⟩ := h.settings jt.val.onSuccess.notMem_writes.2
    refine ⟨h.inv hinv, h.invoked.trans (by simp), fun _ he' => (by cases he'; exact he),
      fun n hn => h.freed.symm ▸ hn, .inl (Option.some_ne_none e), h.used, fun j _ => h.ids j, .inl ?_,
      hset, hsub.trans (by simp)⟩
    rcases h.ids i with hi | ⟨hi, -⟩
    · exact hi
    · exact absurd hi hslot

theorem failWith_completes (rnd : Nat → Nat) : Completes rnd s i jt (failWith i jt s) := by
  rw [failWith_live hl]
  refine ⟨hinv.release hjt, by simp, nofun, subset_cons_self _ _,
    .inr mem_cons_self, fun _ h => h, fun j hj => .inl (TransactionMap.release_jtId_ne _ hj _),
    .inr (TransactionMap.release_jtId _ _ _), rfl, by simp⟩

end

/-! ## Replies -/

def answered (map : TransactionMap) (m : Msg) : Option (Fin 8) :=
  slots.find? fun i => strncmpEq (map.jtId i) (m.val .transaction)

theorem successLoop_eq (rnd : Nat → Nat) (m : Msg) (s : St) (is : List (Fin 8)) :
    successLoop rnd m is s =
      match is.find? fun i => strncmpEq (s.mJanusTransactionMap.jtId i) (m.val .transaction) with
      | none => .ok () s
      | some i => succeed rnd m i s := by
  induction is with
  | nil => rfl
  | cons i is ih =>
    rw [successLoop, get_bind]
    cases hi : strncmpEq (s.mJanusTransactionMap.jtId i) (m.val .transaction) with
    | true => simp [hi]
    | false => simp [hi, ih]

theorem errorLoop_eq (m : Msg) (s : St) (is : List (Fin 8))
    (h : ∀ i ∈ is.find? fun i => strncmpEq (s.mJanusTransactionMap.jtId i) (m.val .transaction),
      s.mJanusTransactionMap.jts.slot i ≠ none) :
    errorLoop m is s =
      match is.find? fun i => strncmpEq (s.mJanusTransactionMap.jtId i) (m.val .transaction) with
      | none => .ok () s
      | some i => match s.mJanusTransactionMap.jts.slot i with
        | none => .ok () s
        | some jt => failWith i jt s := by
  induction is with
  | nil => rfl
  | cons i is ih =>
    rw [errorLoop, get_bind]
    cases hi : strncmpEq (s.mJanusTransactionMap.jtId i) (m.val .transaction) with
    | true =>
      obtain ⟨jt, hjt⟩ := Option.ne_none_iff_exists'.1 (h i (by simp [hi]))
      simp [hi, hjt]
    | false =>
      simp only [find?_cons, hi, Bool.false_eq_true, if_false] at h ⊢
      exact ih h

section
variable {map : TransactionMap} {m : Msg} {i : Fin 8}

theorem isPrefixOf_answered (h : answered map m = some i) : m.val .transaction <+: map.jtId i := by
  have hi : strncmpEq (map.jtId i) (m.val .transaction) := find?_some (p := fun i =>
    strncmpEq (map.jtId i) (m.val .transaction)) h
  exact (strncmpEq_iff (m.nonul_val)).1 hi

theorem answered_none (h : answered map m = none) (j : Fin 8) : ¬ m.val .transaction <+: map.jtId j := by
  intro hj
  have hmem : j ∈ slots := by fin_cases j <;> simp [slots]
  exact find?_eq_none.1 h j hmem ((strncmpEq_iff (m.nonul_val)).2 hj)

theorem answered_nil (h : m.val .transaction = []) : answered map m = some 0 := by
  simp [answered, slots, h, strncmpEq]

/-- The slot found was used: by a pending transaction, or else it is the first slot. -/
theorem slot_of_answered (hinv : map.Inv) (h0 : map.jts.slot 0 ≠ none)
    (h : answered map m = some i) : map.jts.slot i ≠ none := by
  by_cases hi : map.jtId i = []
  · have hnil : m.val .transaction = [] := List.prefix_nil.1 (hi ▸ isPrefixOf_answered h)
    rw [answered_nil hnil, Option.some.injEq] at h
    exact h ▸ h0
  · obtain ⟨jt, hjt, -⟩ := hinv.pending i hi
    exact hjt ▸ Option.some_ne_none jt

end

inductive Replied (rnd : Nat → Nat) (s : St) (m : Msg) (r : Result Fault St Unit) : Prop
  | unmatched (h : answered s.mJanusTransactionMap m = none) (hr : r = .ok () s)
  | pending (i : Fin 8) (jt : Cell RtcJanusTransaction)
      (h : answered s.mJanusTransactionMap m = some i)
      (hid : s.mJanusTransactionMap.jtId i ≠ [])
      (hjt : jt.val.transactionId = s.mJanusTransactionMap.jtId i)
      (hl : s.mJanusTransactionMap.jts.Live jt) (hr : Completes rnd s i jt r)
  | completed (i : Fin 8) (jt : Cell RtcJanusTransaction)
      (h : answered s.mJanusTransactionMap m = some i) (hid : s.mJanusTransactionMap.jtId i = [])
      (hr : r = .error (.freedTransaction jt) s)

theorem onKind_success (rnd : Nat → Nat) (m : Msg) (s : St) :
    onKind rnd m .success s = match answered s.mJanusTransactionMap m with
      | none => .ok () s
      | some i => succeed rnd m i s :=
  successLoop_eq rnd m s slots

theorem onKind_replied {s : St} (hinv : s.mJanusTransactionMap.Inv)
    (h0 : s.mJanusTransactionMap.jts.slot 0 ≠ none) {k : Kind} (hk : k = .success ∨ k = .error)
    (rnd : Nat → Nat) (m : Msg) : Replied rnd s m (onKind rnd m k s) := by
  have hused := fun i (hi : answered s.mJanusTransactionMap m = some i) => slot_of_answered hinv h0 hi
  have hs := onKind_success rnd m s
  have he : onKind rnd m .error s = match answered s.mJanusTransactionMap m with
      | none => .ok () s
      | some i => match s.mJanusTransactionMap.jts.slot i with
        | none => .ok () s
        | some jt => failWith i jt s := errorLoop_eq m s slots hused
  cases ha : answered s.mJanusTransactionMap m with
  | none =>
    refine .unmatched ha ?_
    rcases hk with rfl | rfl
    · rw [hs, ha]
    · rw [he, ha]
  | some i =>
    obtain ⟨jt, hjt⟩ := Option.ne_none_iff_exists'.1 (hused i ha)
    by_cases hid : s.mJanusTransactionMap.jtId i = []
    · have hl := hinv.completed i jt hid hjt
      refine .completed i jt ha hid ?_
      rcases hk with rfl | rfl
      · rw [hs, ha]
        exact succeed_freed rnd m hjt hl
      · simp only [he, ha, hjt]
        exact failWith_freed i hl
    obtain ⟨jt', hjt', hl, hid'⟩ := hinv.pending i hid
    obtain rfl : jt' = jt := Option.some.inj (hjt'.symm.trans hjt)
    refine .pending i jt' ha hid hid' hl ?_
    rcases hk with rfl | rfl
    · rw [hs, ha]
      exact succeed_completes hinv hjt hl rnd m
    · simp only [he, ha, hjt]
      exact failWith_completes hinv hjt hl rnd

/-! ## Runs -/

structure Machine.Inv (l : Machine) : Prop where
  map : l.st.mJanusTransactionMap.Inv
  opened : l.st.conn.mRTCConnected → l.st.mJanusTransactionMap.jts.slot 0 ≠ none
  notFreed : ∀ e ∈ l.fault, NotFreed e

theorem Machine.Inv.init : Machine.init.Inv where
  map := .empty
  opened := nofun
  notFreed := nofun

def Answers (l : Machine) (i : In) : Prop :=
  (∀ jt ∈ invoked (step l i).2, ∃ rnd m, i = .message rnd m ∧ m.search .transaction = some jt.val.transactionId) ∧
  ∀ jt, (step l i).1.fault ≠ some (.freedTransaction jt)

def IsReply (l : Machine) (m : Msg) : Prop :=
  l.fault = none ∧ l.st.conn.mRTCConnected ∧ (m.kind = some .success ∨ m.kind = some .error)

def Exact (l : Machine) : In → Prop
  | .message _ m => IsReply l m → m.val .transaction ≠ [] ∧
      ∀ j, m.val .transaction <+: l.st.mJanusTransactionMap.jtId j →
        l.st.mJanusTransactionMap.jtId j = m.val .transaction
  | _ => True

def Spent (l : Machine) (n : Nat) : Prop := l.fault ≠ none ∨ n ∈ l.st.mJanusTransactionMap.jts.freed

structure Outcome (l : Machine) (i : In) : Prop where
  inv : (step l i).1.Inv
  answers : Answers l i
  keep : ∀ n, Spent l n → Spent (step l i).1 n
  once : ((invoked (step l i).2).map Cell.serial).Nodup ∧
    ∀ n ∈ (invoked (step l i).2).map Cell.serial, ¬ Spent l n ∧ Spent (step l i).1 n

section
variable {l : Machine} {i : In} {rnd : Nat → Nat} {m : Msg}

theorem Outcome.of_nil (hinv : (step l i).1.Inv) (hev : invoked (step l i).2 = [])
    (hkeep : ∀ n, Spent l n → Spent (step l i).1 n) : Outcome l i := by
  refine ⟨hinv, ⟨fun jt hjt => ?_, fun jt he => hinv.notFreed _ he jt rfl⟩, hkeep, ?_⟩
  · rw [hev] at hjt
    cases hjt
  · rw [hev]
    exact ⟨nodup_nil, nofun⟩

theorem Outcome.of_fault (hinv : l.Inv) (h : l.fault ≠ none) : Outcome l i := by
  refine .of_nil ?_ ?_ ?_ <;> rw [step_of_fault h]
  · exact hinv
  · rfl
  · exact fun _ => id

theorem Outcome.of_silent (h : l.fault = none) (hmap : (Result.state (i.run l.start)).mJanusTransactionMap.Inv)
    (hopen : (Result.state (i.run l.start)).conn.mRTCConnected →
      (Result.state (i.run l.start)).mJanusTransactionMap.jts.slot 0 ≠ none)
    (hev : invoked (Result.state (i.run l.start)).evs = [])
    (hfreed : (Result.state (i.run l.start)).mJanusTransactionMap.jts.freed = l.st.mJanusTransactionMap.jts.freed)
    (hf : ∀ e ∈ Result.err (i.run l.start), NotFreed e) : Outcome l i := by
  refine .of_nil ?_ ?_ ?_ <;> rw [step_of_none h i]
  · exact ⟨hmap, hopen, hf⟩
  · exact hev
  · exact fun n hn => .inr (hfreed.symm ▸ hn.resolve_left (absurd h))

theorem Outcome.of_ok (hinv : l.Inv) (h : l.fault = none) (hrun : i.run l.start = .ok () l.start) : Outcome l i := by
  refine .of_silent h ?_ ?_ ?_ ?_ ?_ <;> rw [hrun]
  · exact hinv.map
  · exact hinv.opened
  · rfl
  · rfl
  · exact nofun

theorem Outcome.of_frame {W : Set (Fin 8)} (hinv : l.Inv) (h : l.fault = none)
    (hr : Safe (Frame W rnd) NotFreed i.run) : Outcome l i := by
  obtain ⟨hf, he⟩ := hr l.start
  exact .of_silent h (hf.inv hinv.map) (fun hc => hf.used 0 (hinv.opened (hf.connected ▸ hc))) hf.invoked hf.freed he

theorem IsReply.replied (hinv : l.Inv) (h : IsReply l m) (rnd : Nat → Nat) :
    Replied rnd l.start m ((In.message rnd m).run l.start) := by
  obtain ⟨-, hc, hk⟩ := h
  show Replied rnd l.start m (onRTCMessage rnd m l.start)
  rw [onRTCMessage_eq (s := l.start) hc rnd m]
  rcases hk with hk | hk <;> rw [hk]
  · exact onKind_replied (s := l.start) hinv.map (hinv.opened hc) (.inl rfl) rnd m
  · exact onKind_replied (s := l.start) hinv.map (hinv.opened hc) (.inr rfl) rnd m

theorem message_safe (hk : ¬ (m.kind = some .success ∨ m.kind = some .error)) :
    Safe (Frame {Callback.subscriberCreateHandle.slot} rnd) NotFreed (onRTCMessage rnd m) := by
  refine onRTCMessage_safe Frame.closed fun _ hk' => Frame.onKind ?_ (Set.mem_singleton _) m
  rintro (rfl | rfl)
  exacts [hk (.inl hk'), hk (.inr hk')]

theorem Exact.eq_of_answered {j : Fin 8} (h : Exact l (.message rnd m))
    (hr : IsReply l m) (ha : answered l.st.mJanusTransactionMap m = some j) :
    l.st.mJanusTransactionMap.jtId j = m.val .transaction :=
  (h hr).2 j (isPrefixOf_answered ha)

theorem Msg.search_of_val {k : Key} (h : m.val k ≠ []) : m.search k = some (m.val k) := by
  unfold Msg.val at h ⊢
  cases hs : m.search k with
  | none => simp [hs] at h
  | some v => rfl

theorem Outcome.of_reply (hinv : l.Inv) (hr : IsReply l m)
    (h : Exact l (.message rnd m)) : Outcome l (.message rnd m) := by
  have hs := step_of_none hr.1 (.message rnd m)
  rcases hr.replied hinv rnd with ⟨-, hrun⟩ | ⟨j, jt, ha, -, hjt, hl, hc⟩ | ⟨j, jt, ha, hid, -⟩
  · exact .of_ok hinv hr.1 hrun
  · have hid : jt.val.transactionId = m.val .transaction := hjt.trans (h.eq_of_answered hr ha)
    have hev : invoked (step l (.message rnd m)).2 = [jt] := by
      rw [hs]
      exact hc.invoked
    refine ⟨?_, ⟨fun jt' hjt' => ?_, fun jt' he => ?_⟩, fun n hn => ?_, ?_⟩
    · rw [hs]
      exact ⟨hc.inv, fun hc' => hc.used 0 (hinv.opened (hc.connected ▸ hc')), hc.notFreed⟩
    · rw [hev, mem_singleton] at hjt'
      rw [hjt', hid]
      exact ⟨rnd, m, rfl, Msg.search_of_val (h hr).1⟩
    · rw [hs] at he
      exact hc.notFreed _ he jt' rfl
    · rw [hs]
      exact .inr (hc.freed (hn.resolve_left (absurd hr.1)))
    rw [hev, hs]
    refine ⟨nodup_singleton _, fun n hn => ?_⟩
    rw [map_singleton, mem_singleton] at hn
    subst hn
    exact ⟨fun hsp => hsp.elim (· hr.1) hl, hc.once⟩
  · exact absurd ((h.eq_of_answered hr ha).symm.trans hid) (h hr).1

theorem step_outcome (hinv : l.Inv) (h : Exact l i) : Outcome l i := by
  by_cases hf : l.fault = none
  swap
  · exact .of_fault hinv hf
  cases i with
  | login feedId autoSubscribe asListener asPublisher =>
    have hsafe : Safe (Frame Set.univ fun _ => 0) NotFreed
        (In.login feedId autoSubscribe asListener asPublisher).run :=
      Safe.modify fun s => .of_map rfl rfl rfl fun hW => absurd (Set.mem_univ _) hW
    exact .of_frame hinv hf hsafe
  | opened rnd =>
    -- the slot of `createSession` is filled when the connection comes up
    refine .of_silent hf (hinv.map.store) (fun _ => ?_) rfl rfl fun _ he => by cases he
    exact ne_of_eq_of_ne (Pool.put_slot _ _) (Option.some_ne_none _)
  | message rnd m =>
    by_cases hc : l.st.conn.mRTCConnected
    · by_cases hk : m.kind = some .success ∨ m.kind = some .error
      · exact .of_reply hinv ⟨hf, hc, hk⟩ h
      · exact .of_frame hinv hf (message_safe hk)
    · exact .of_ok hinv hf (onRTCMessage_not (s := l.start) hc)
  | closed =>
    exact .of_silent hf hinv.map hinv.opened rfl rfl fun _ he => by cases he
  | disconnect =>
    exact .of_silent hf hinv.map (fun hc => by cases hc) rfl rfl fun _ he => by cases he
  | subscribe rnd feedId =>
    exact .of_frame hinv hf (Frame.subscriberCreateHandle (Set.mem_univ _) feedId)

/-- A reply to a completed slot reads a released record; one to a longer id invokes another's
callback. -/
theorem Answers.exact (hinv : l.Inv) (h : Answers l i) : Exact l i := by
  cases i with
  | message rnd m =>
    intro hr
    have hs := step_of_none hr.1 (.message rnd m)
    rcases hr.replied hinv rnd with ⟨ha, -⟩ | ⟨j, jt, ha, hid, hjt, -, hc⟩ | ⟨j, jt, -, -, hrun⟩
    · refine ⟨fun hnil => ?_, fun j hj => absurd hj (answered_none ha j)⟩
      exact Option.some_ne_none _ ((answered_nil hnil).symm.trans ha)
    · have hmem : jt ∈ invoked (step l (.message rnd m)).2 := by
        rw [hs]
        exact (hc.invoked : _ = [jt]) ▸ mem_singleton_self jt
      obtain ⟨rnd', m', he, hsearch⟩ := h.1 jt hmem
      cases he
      have hval : m.val .transaction = l.st.mJanusTransactionMap.jtId j := by
        rw [Msg.val, hsearch, ← show _ = l.st.mJanusTransactionMap.jtId j from hjt]
        rfl
      rw [hval]
      exact ⟨hid, fun j' hj' => hinv.map.eq_of_isPrefixOf hid hj'⟩
    · refine absurd ?_ (h.2 jt)
      rw [hs, hrun]
      rfl
  | _ => trivial

end

/-- **Replies go to the transaction they name, once**: in exactly the runs in which no reply has an
empty transaction or a proper prefix of a stored id. -/
theorem answers_iff (is : List In) :
    (Along step Answers .init is ∧ ((outs step .init is).flatMap fun evs => (invoked evs).map Cell.serial).Nodup) ↔
    Along step Exact .init is := by
  have hiff := along_iff_of_ok (fun l i hinv h => (step_outcome hinv h).inv)
    (fun l i hinv => ⟨fun h => h.exact hinv, fun h => (step_outcome (l := l) (i := i) hinv h).answers⟩)
    is Machine.init Machine.Inv.init
  refine ⟨fun h => hiff.1 h.1, fun h => ⟨hiff.2 h, ?_⟩⟩
  exact (outs_flatMap_nodup _ Exact Machine.Inv Spent (fun l i hinv h => (step_outcome hinv h).inv)
    (fun l i n hinv h hn => (step_outcome hinv h).keep n hn)
    (fun l i hinv h => (step_outcome hinv h).once) is _ Machine.Inv.init h).1

/-! ## Replies without a transaction -/

def successMsg : Msg := ⟨true, [(.janus, ascii "success")], by decide⟩

/-- The first such message completes `createSession`, and the second reads its released record. -/
theorem answers_no_transaction :
    outs step .init [.opened fun _ => 0, .message (fun _ => 1) successMsg] =
      [[.observer .onRTCLoginOK, .sent (.create (ascii "AAAAAAAAAAAA"))],
       [.onSuccess 0 ⟨0, ⟨ascii "AAAAAAAAAAAA", .createSession⟩⟩, .sent (.attach (ascii "BBBBBBBBBBBB") 0)]] ∧
    successMsg.search .transaction = none ∧
    (exec step .init [.opened fun _ => 0, .message (fun _ => 1) successMsg, .message (fun _ => 2) successMsg]).fault =
      some (.freedTransaction ⟨0, ⟨ascii "AAAAAAAAAAAA", .createSession⟩⟩) := by
  refine ⟨?_, ?_, ?_⟩ <;> decide +kernel

end BareRTC.Signal
