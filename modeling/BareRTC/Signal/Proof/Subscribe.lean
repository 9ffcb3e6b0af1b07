import BareRTC.Signal.Proof.Transactions

/-!
# Subscriptions

`subscriberCreateHandle` keeps its transaction in one slot and its feed in one field, and the reply
is answered with a join of the feed that the field has by then. `watch` runs the connection together
with the attaches that wait for a reply. If a subscription is made only when none waits, every reply
is matched and answered with a join of its own feed (`joins_of_oneAtATime`).
-/

namespace BareRTC.Signal

open List

open EStateM (Result)

/-! ## Attaches that wait for a reply -/

def attaches (evs : List Ev) : List (UInt64 × Bytes) :=
  (subscribed evs).filter fun a => evs.any fun
    | .sent (.attach t _) => t == a.2
    | _ => false

instance (l : Machine) (m : Msg) : Decidable (IsReply l m) := inferInstanceAs (Decidable (_ ∧ _ ∧ (_ ∨ _)))

def repliedTo (l : Machine) : In → Option Bytes
  | .message _ m => if IsReply l m then m.search .transaction else none
  | _ => none

structure Watch where
  l : Machine
  pending : List (UInt64 × Bytes)

def Watch.init : Watch := ⟨.init, []⟩

def watch (w : Watch) (i : In) : Watch × List Ev :=
  (⟨(step w.l i).1, (w.pending.filter fun a => repliedTo w.l i ≠ some a.2) ++ attaches (step w.l i).2⟩, (step w.l i).2)

def Joins (w : Watch) (i : In) : Prop :=
  ∀ rnd m a, i = .message rnd m → IsReply w.l m → m.kind = some .success → a ∈ w.pending →
    m.search .transaction = some a.2 →
    (∃ jt, .onSuccess Callback.subscriberCreateHandle.slot jt ∈ (step w.l i).2 ∧ jt.val.transactionId = a.2) ∧
    (∃ room session handle, .sent (.joinListener room a.1 session handle) ∈ (step w.l i).2) ∧
    ∀ room feed session handle, .sent (.joinListener room feed session handle) ∈ (step w.l i).2 → feed = a.1

def Fresh (l : Machine) (rnd : Nat → Nat) : Prop := ∀ j, l.st.mJanusTransactionMap.jtId j ≠ newId rnd

def Announces (l : Machine) (m : Msg) : Prop :=
  m.kind = some .event ∧ autoSubscribes l.st.conn (atoll (m.val .publisherId))

def OneAtATime (w : Watch) : In → Prop
  | .login .. => w.pending = []
  | .opened rnd => Fresh w.l rnd
  | .message rnd m => Exact w.l (.message rnd m) ∧ Fresh w.l rnd ∧
      (Announces w.l m → w.pending = []) ∧
      (IsReply w.l m → (∃ a ∈ w.pending, m.search .transaction = some a.2) → (m.val .dataId).length < MIN_SIZE)
  | .closed => True
  | .disconnect => True
  | .subscribe rnd _ => Fresh w.l rnd ∧ w.pending = []

/-! ## The invariant -/

def Distinct (f : Fin 8 → Bytes) : Prop := ∀ i j, f i ≠ [] → f i = f j → i = j

theorem Distinct.of_writes {f g : Fin 8 → Bytes} {new : Bytes} {W : Set (Fin 8)} (h : Distinct f)
    (hnew : ∀ j, f j ≠ new) (hW : W.Subsingleton)
    (hg : ∀ j, g j = f j ∨ g j = [] ∨ j ∈ W ∧ g j = new) : Distinct g := by
  intro i j hi hij
  rcases hg i with hgi | hgi | ⟨hiW, hgi⟩
  · rcases hg j with hgj | hgj | ⟨-, hgj⟩
    · exact h i j (hgi ▸ hi) (by rw [← hgi, ← hgj, hij])
    · exact absurd (hij.trans hgj) hi
    · exact absurd (hgi.symm.trans (hij.trans hgj)) (hnew i)
  · exact absurd hgi hi
  rcases hg j with hgj | hgj | ⟨hjW, -⟩
  · exact absurd (hgj.symm.trans (hij.symm.trans hgi)) (hnew j)
  · exact absurd (hij.trans hgj) hi
  · exact hW hiW hjW

theorem Distinct.store {map : TransactionMap} (h : Distinct map.jtId) {rnd : Nat → Nat}
    (hnew : ∀ j, map.jtId j ≠ newId rnd) {cb : Callback} : Distinct (map.store cb.slot ⟨newId rnd, cb⟩).jtId := by
  refine h.of_writes hnew (Set.subsingleton_singleton (a := cb.slot)) fun j => ?_
  by_cases hj : j = cb.slot
  · exact .inr (.inr ⟨hj, by rw [hj, TransactionMap.store_jtId]⟩)
  · exact .inl (TransactionMap.store_jtId_ne _ hj _)

structure Waits (s : St) (a : UInt64 × Bytes) : Prop where
  id : s.mJanusTransactionMap.jtId Callback.subscriberCreateHandle.slot = a.2
  ne_nil : a.2 ≠ []
  feed : s.conn.mFeedId = a.1

structure Watch.Inv (w : Watch) : Prop where
  machine : w.l.Inv
  distinct : w.l.fault = none → Distinct w.l.st.mJanusTransactionMap.jtId
  waits : w.l.fault = none → ∀ a ∈ w.pending, w.pending = [a] ∧ Waits w.l.st a

theorem Watch.Inv.init : Watch.init.Inv where
  machine := .init
  distinct _ _ _ h := absurd rfl h
  waits := nofun

theorem Callback.writes_subsingleton (cb : Callback) : cb.writes.Subsingleton := by
  intro i hi j hj
  obtain ⟨cb1, h1, rfl⟩ := hi
  obtain ⟨cb2, h2, rfl⟩ := hj
  rw [Option.mem_unique h1 h2]

theorem attaches_nil {evs : List Ev} (h : subscribed evs = []) : attaches evs = [] := by
  rw [attaches, h]
  rfl

theorem filter_eq_singleton {α : Type} {l : List α} {a : α} {p : α → Bool} (hl : l = [a])
    (ha : a ∈ l.filter p) : l.filter p = [a] := by
  subst hl
  rw [mem_filter] at ha
  rw [filter_singleton, ha.2]
  rfl

section
variable {w : Watch} {i : In} {rnd : Nat → Nat} {m : Msg}

theorem Watch.Inv.of_kept (hinv : w.Inv) (hm : (step w.l i).1.Inv) (h : w.l.fault = none)
    (hd : Distinct (step w.l i).1.st.mJanusTransactionMap.jtId) (hs : subscribed (step w.l i).2 = [])
    (hw : ∀ a ∈ w.pending, repliedTo w.l i ≠ some a.2 → Waits (step w.l i).1.st a) :
    (watch w i).1.Inv := by
  refine ⟨hm, fun _ => hd, fun _ a ha => ?_⟩
  have hp : (watch w i).1.pending = w.pending.filter fun a => repliedTo w.l i ≠ some a.2 := by
    rw [watch, attaches_nil hs, append_nil]
  rw [hp] at ha ⊢
  obtain ⟨ha', hne⟩ := mem_filter.1 ha
  exact ⟨filter_eq_singleton (hinv.waits h a ha').1 ha, hw a ha' (of_decide_eq_true hne)⟩

theorem Watch.Inv.of_subscribes {id : UInt64} {s1 : St} (hinv : w.Inv)
    (hm : (step w.l i).1.Inv) (h : w.l.fault = none) (hfresh : Fresh w.l rnd) (hp : w.pending = [])
    (hf : Frame ∅ rnd w.l.start s1) (hr : i.run w.l.start = subscriberCreateHandle rnd id s1) :
    (watch w i).1.Inv := by
  obtain ⟨s', hok, hfeed, hmap, hevs⟩ := subscriberCreateHandle_ok
  have hs : step w.l i = (⟨s', none⟩, s'.evs) := by
    rw [step_of_none h i, hr, hok]
    rfl
  have hids : s1.mJanusTransactionMap.jtId = w.l.st.mJanusTransactionMap.jtId :=
    funext fun j => (hf.ids j).resolve_right And.left
  have hsub : subscribed s'.evs = [(id, newId rnd)] := by
    have h1 : subscribed s1.evs = [] := (hf.settings (Set.notMem_empty _)).2
    rw [hevs, subscribed_append, subscribed_append, h1]
    split <;> rfl
  have hw : (watch w i).1 = ⟨⟨s', none⟩, attaches s'.evs⟩ := by
    rw [watch, hs, hp]
    rfl
  rw [hs] at hm
  rw [hw]
  refine ⟨hm, fun _ => ?_, fun _ a ha => ?_⟩
  · rw [hmap]
    exact .store (hids ▸ hinv.distinct h) (hids ▸ hfresh)
  have ha' : a = (id, newId rnd) := by
    have := (mem_filter.1 ha).1
    rwa [hsub, mem_singleton] at this
  refine ⟨filter_eq_singleton (hsub.trans (by rw [ha'])) ha, ?_⟩
  rw [ha']
  exact ⟨by rw [hmap, TransactionMap.store_jtId], newId_ne_nil rnd, hfeed⟩

theorem OneAtATime.exact (h : OneAtATime w i) : Exact w.l i := by
  cases i with
  | message rnd m => exact h.1
  | _ => trivial

theorem Waits.of_eq {s s' : St} {a : UInt64 × Bytes} (h : Waits s a)
    (hid : s'.mJanusTransactionMap.jtId Callback.subscriberCreateHandle.slot =
      s.mJanusTransactionMap.jtId Callback.subscriberCreateHandle.slot)
    (hfeed : s'.conn.mFeedId = s.conn.mFeedId) : Waits s' a :=
  ⟨hid.trans h.id, h.ne_nil, hfeed.trans h.feed⟩

theorem Watch.Inv.of_same (hinv : w.Inv) (hm : (step w.l i).1.Inv) (h : w.l.fault = none)
    (hid : (Result.state (i.run w.l.start)).mJanusTransactionMap.jtId = w.l.st.mJanusTransactionMap.jtId)
    (hs : subscribed (Result.state (i.run w.l.start)).evs = [])
    (hfeed : (Result.state (i.run w.l.start)).conn.mFeedId = w.l.st.conn.mFeedId) :
    (watch w i).1.Inv := by
  have hstep := step_of_none h i
  refine .of_kept hinv hm h ?_ ?_ fun a ha _ => ?_
  · rw [hstep]
    exact hid ▸ hinv.distinct h
  · rw [hstep]
    exact hs
  · rw [hstep]
    exact (hinv.waits h a ha).2.of_eq (congrFun hid _) hfeed

theorem Watch.Inv.of_reply (hinv : w.Inv) (hm : (step w.l (.message rnd m)).1.Inv) (hr : IsReply w.l m)
    (h : OneAtATime w (.message rnd m)) : (watch w (.message rnd m)).1.Inv := by
  obtain ⟨hexact, hfresh, -, -⟩ := h
  rcases hr.replied hinv.machine rnd with ⟨-, hrun⟩ | ⟨j, jt, ha, -, hjt, hl, hc⟩ | ⟨j, jt, ha, hid, -⟩
  · refine .of_same hinv hm hr.1 ?_ ?_ ?_ <;> rw [hrun] <;> rfl
  · have hstep := step_of_none hr.1 (.message rnd m)
    refine .of_kept hinv hm hr.1 ?_ ?_ fun a ha' hne => ?_
    · rw [hstep]
      refine Distinct.of_writes (hinv.distinct hr.1) hfresh jt.val.onSuccess.writes_subsingleton fun k => ?_
      by_cases hk : k = j
      · subst hk
        exact hc.id.imp id .inl
      · exact (hc.ids k hk).imp id .inr
    · rw [hstep]
      exact hc.settings.2
    -- the reply is to another slot
    have hw := (hinv.waits hr.1 a ha').2
    have hj : Callback.subscriberCreateHandle.slot ≠ j := by
      rintro rfl
      have hval : m.val .transaction = a.2 := (hexact.eq_of_answered hr ha).symm.trans hw.id
      have hsearch := Msg.search_of_val (hexact hr).1
      rw [hval] at hsearch
      exact hne (by rw [repliedTo, if_pos hr, hsearch])
    rw [hstep]
    refine hw.of_eq ?_ (congrArg (·.1) hc.settings.1)
    rcases hc.ids _ hj with h | ⟨h, -⟩
    · exact h
    · exact absurd h jt.val.onSuccess.notMem_writes.2
  · exact absurd ((hexact.eq_of_answered hr ha).symm.trans hid) (hexact hr).1

theorem Watch.Inv.of_frame (hinv : w.Inv) (hm : (step w.l i).1.Inv)
    (h : w.l.fault = none) (hf : Frame ∅ rnd w.l.start (Result.state (i.run w.l.start))) :
    (watch w i).1.Inv := by
  obtain ⟨hset, hsub⟩ := hf.settings (Set.notMem_empty _)
  exact .of_same hinv hm h (funext fun j => (hf.ids j).resolve_right And.left) hsub (congrArg (·.1) hset)

theorem message_maySubscribe (hk : ¬ (m.kind = some .success ∨ m.kind = some .error)) :
    Safe (Frame ∅ rnd) NotFreed (onRTCMessage rnd m) ∨ m.kind = some .event ∧
      Closed.MaySubscribe (Frame ∅ rnd) NotFreed rnd (atoll (m.val .publisherId)) (onEvent rnd m) := by
  by_cases hev : m.kind = some .event
  · exact .inr ⟨hev, Frame.closed.onEvent_maySubscribe (Frame.eventHandle m) rnd⟩
  refine .inl (onRTCMessage_safe Frame.closed fun k hk' => Frame.closed.onKind 
    (fun h => absurd ?_ hk) (fun h => absurd (h ▸ hk') hev) fun _ => Frame.acknowledge)
  rcases h with rfl | rfl
  exacts [.inl hk', .inr hk']

theorem Watch.Inv.of_message (hinv : w.Inv) (hm : (step w.l (.message rnd m)).1.Inv) (hf : w.l.fault = none)
    (h : OneAtATime w (.message rnd m)) : (watch w (.message rnd m)).1.Inv := by
  by_cases hc : w.l.st.conn.mRTCConnected
  swap
  · have hrun : (In.message rnd m).run w.l.start = .ok () w.l.start := onRTCMessage_not (s := w.l.start) hc
    refine .of_same hinv hm hf ?_ ?_ ?_ <;> rw [hrun] <;> rfl
  by_cases hk : m.kind = some .success ∨ m.kind = some .error
  · exact .of_reply hinv hm ⟨hf, hc, hk⟩ h
  rcases message_maySubscribe hk with hsafe | ⟨hev, hmay⟩
  · exact .of_frame hinv hm hf (hsafe w.l.start).1
  have hrun : (In.message rnd m).run w.l.start = onEvent rnd m w.l.start := by
    have := onRTCMessage_eq (s := w.l.start) hc rnd m
    rwa [hev] at this
  rcases hmay w.l.start with ⟨hframe, -⟩ | ⟨s1, hframe, hauto, hsub⟩
  · exact .of_frame hinv hm hf (hrun ▸ hframe)
  refine .of_subscribes hinv hm hf h.2.1 (h.2.2.1 ⟨hev, ?_⟩) hframe (hrun.trans hsub)
  have hset : s1.conn.settings = w.l.st.conn.settings := (hframe.settings (Set.notMem_empty _)).1
  simp only [Conn.settings, Prod.mk.injEq] at hset
  obtain ⟨h1, h2, h3, h4, -⟩ := hset
  rw [autoSubscribes, h1, h2, h3, h4] at hauto
  exact hauto

theorem watch_inv (hinv : w.Inv) (h : OneAtATime w i) : (watch w i).1.Inv := by
  have hm := (step_outcome hinv.machine h.exact).inv
  by_cases hf : w.l.fault = none
  swap
  · have hl : (watch w i).1.l = w.l := by rw [watch, step_of_fault hf]
    exact ⟨hm, fun h => absurd (hl ▸ h) hf, fun h => absurd (hl ▸ h) hf⟩
  cases i with
  | login =>
    refine .of_kept hinv hm hf ?_ ?_ fun a ha => ?_
    · rw [step_of_none hf]
      exact hinv.distinct hf
    · rw [step_of_none hf]
      rfl
    · rw [h] at ha
      cases ha
  | opened rnd =>
    refine .of_kept hinv hm hf ?_ ?_ fun a ha _ => ?_ <;> rw [step_of_none hf]
    · exact .store (hinv.distinct hf) h
    · rfl
    · exact (hinv.waits hf a ha).2.of_eq (TransactionMap.store_jtId_ne _ (by decide) _) rfl
  | message rnd m => exact .of_message hinv hm hf h
  | closed | disconnect => exact .of_same hinv hm hf rfl rfl rfl
  | subscribe rnd feedId =>
    exact .of_subscribes hinv hm hf h.1 h.2 (Frame.closed.refl w.l.start) rfl

/-! ## The join -/

theorem subscriberCreateHandleCallback_ok {s : St} (hc : s.conn.mRTCConnected)
    (hlen : (m.val .dataId).length < MIN_SIZE) :
    ∃ s' handle, subscriberCreateHandleCallback m s = .ok () s' ∧ s'.evs = s.evs ++
      [.sent (.joinListener s.conn.mRoomId s.conn.mFeedId s.conn.mSessionId handle)] := by
  have hid : ∃ o, saveId m .dataId s = .ok o s := by
    unfold Msg.val at hlen
    cases hs : m.search .dataId with
    | none => exact ⟨none, saveId_none hs⟩
    | some v =>
      rw [hs] at hlen
      exact ⟨some (atoll v), saveId_some hs hlen⟩
  obtain ⟨o, ho⟩ := hid
  have hrun : subscriberCreateHandleCallback m s = subscriberJoinRoom (o.getD 0) s.conn.mFeedId
      { s with mJanusHandlesMap := s.mJanusHandlesMap.store 1 ⟨o.getD 0, s.conn.mFeedId, .subscriber⟩ } := by
    rw [subscriberCreateHandleCallback, bind_of_ok ho]
    rfl
  rw [hrun, subscriberJoinRoom, get_bind, sendMessage, get_bind, if_pos hc]
  exact ⟨_, o.getD 0, rfl, rfl⟩

theorem joins_of_inv (hinv : w.Inv) (h : OneAtATime w i) : Joins w i := by
  rintro rnd m a rfl hr hk ha hsearch
  obtain ⟨hexact, -, -, hlen⟩ := h
  have hw := (hinv.waits hr.1 a ha).2
  have hval : m.val .transaction = a.2 := by rw [Msg.val, hsearch]; rfl
  have hans : answered w.l.st.mJanusTransactionMap m = some Callback.subscriberCreateHandle.slot := by
    cases hj : answered w.l.st.mJanusTransactionMap m with
    | none =>
      refine absurd ?_ (answered_none hj Callback.subscriberCreateHandle.slot)
      rw [hval, hw.id]
    | some j =>
      have hjid := hexact.eq_of_answered hr hj
      rw [hval, ← hw.id] at hjid
      exact congrArg some (hinv.distinct hr.1 _ _ (hjid ▸ hw.id ▸ hw.ne_nil) hjid)
  obtain ⟨jt, hjt, hl, hid⟩ := hinv.machine.map.pending Callback.subscriberCreateHandle.slot (hw.id ▸ hw.ne_nil)
  have hcb : jt.val.onSuccess = .subscriberCreateHandle := by
    have hslot := hinv.machine.map.slot _ jt hjt
    cases hcb : jt.val.onSuccess <;> rw [hcb] at hslot <;> first | rfl | cases hslot
  obtain ⟨s2, handle, hrun, hevs⟩ := subscriberCreateHandleCallback_ok
    (s := { w.l.start with evs := [.onSuccess Callback.subscriberCreateHandle.slot jt] }) (m := m) hr.2.1
    (hlen hr ⟨a, ha, hsearch⟩)
  have hstep : (step w.l (.message rnd m)).2 = s2.evs := by
    have hmsg : (In.message rnd m).run w.l.start = succeed rnd m Callback.subscriberCreateHandle.slot w.l.start := by
      have hmsg := onRTCMessage_eq (s := w.l.start) hr.2.1 rnd m
      rw [hk] at hmsg
      have hans' : answered w.l.start.mJanusTransactionMap m = some _ := hans
      have hloop := onKind_success rnd m w.l.start
      rw [hans'] at hloop
      exact hmsg.trans hloop
    have hsucc := succeed_live (s := w.l.start) rnd m hjt hl
    have hcall : runCallback rnd m .subscriberCreateHandle { w.l.start with
        evs := w.l.start.evs ++ [.onSuccess Callback.subscriberCreateHandle.slot jt] } = .ok () s2 := hrun
    rw [hcb, bind_of_ok hcall] at hsucc
    rw [step_of_none hr.1, hmsg, hsucc]
    rfl
  have hmem : (step w.l (.message rnd m)).2 =
      [.onSuccess Callback.subscriberCreateHandle.slot jt,
       .sent (.joinListener w.l.st.conn.mRoomId a.1 w.l.st.conn.mSessionId handle)] := by
    rw [hstep, hevs, ← hw.feed]
    rfl
  rw [hmem]
  refine ⟨⟨jt, mem_cons_self, hid.trans hw.id⟩,
    ⟨_, _, _, mem_cons_of_mem _ mem_cons_self⟩, fun room feed session handle' h => ?_⟩
  rcases mem_cons.1 h with h | h
  · cases h
  · cases mem_singleton.1 h
    rfl

end

/-- **Every reply to a subscription is matched, and answered with a join of its own feed**, in every
run in which a subscription is made only when none waits. -/
theorem joins_of_oneAtATime (is : List In) (h : Along watch OneAtATime .init is) : Along watch Joins .init is :=
  along_of_inv (fun _ _ hinv h => watch_inv hinv h) (fun _ _ hinv h => joins_of_inv hinv h) is _ .init h

instance (w : Watch) (i : In) : Decidable (OneAtATime w i) :=
  match i with
  | .login .. => inferInstanceAs (Decidable (w.pending = []))
  | .opened rnd => inferInstanceAs (Decidable (∀ j, w.l.st.mJanusTransactionMap.jtId j ≠ newId rnd))
  | .message rnd m => inferInstanceAs (Decidable ((IsReply w.l m → m.val .transaction ≠ [] ∧
        ∀ j, m.val .transaction <+: w.l.st.mJanusTransactionMap.jtId j →
          w.l.st.mJanusTransactionMap.jtId j = m.val .transaction) ∧
      (∀ j, w.l.st.mJanusTransactionMap.jtId j ≠ newId rnd) ∧
      ((m.kind = some .event ∧ autoSubscribes w.l.st.conn (atoll (m.val .publisherId))) → w.pending = []) ∧
      (IsReply w.l m → (∃ a ∈ w.pending, m.search .transaction = some a.2) → (m.val .dataId).length < MIN_SIZE)))
  | .closed => inferInstanceAs (Decidable True)
  | .disconnect => inferInstanceAs (Decidable True)
  | .subscribe rnd _ => inferInstanceAs
      (Decidable ((∀ j, w.l.st.mJanusTransactionMap.jtId j ≠ newId rnd) ∧ w.pending = []))

def attachReply : Msg where
  valid := true
  fields := [(.janus, ascii "success"), (.transaction, ascii "BBBBBBBBBBBB"), (.dataId, ascii "5")]
  nonul := by decide

def oneSubscription : List In := [.opened fun _ => 0, .subscribe (fun _ => 1) 7, .message (fun _ => 2) attachReply]

theorem joins_oneSubscription :
    (exec watch .init (oneSubscription.take 2)).pending = [(7, ascii "BBBBBBBBBBBB")] ∧
    Along watch OneAtATime .init oneSubscription ∧ Along watch Joins .init oneSubscription :=
  ⟨by decide +kernel, by decide +kernel, joins_of_oneAtATime _ (by decide +kernel)⟩

/-- Two subscriptions before a reply: the reply to the first is not matched, and no join is sent. -/
theorem attach_lost :
    outs step .init [.opened fun _ => 0, .subscribe (fun _ => 1) 7, .subscribe (fun _ => 2) 8,
      .message (fun _ => 3) attachReply] =
    [[.observer .onRTCLoginOK, .sent (.create (ascii "AAAAAAAAAAAA"))],
     [.subscribed 7 (ascii "BBBBBBBBBBBB"), .sent (.attach (ascii "BBBBBBBBBBBB") 0)],
     [.subscribed 8 (ascii "CCCCCCCCCCCC"), .sent (.attach (ascii "CCCCCCCCCCCC") 0)],
     []] := by
  decide +kernel

end BareRTC.Signal
