import BareRTC.Lib.Prog
import BareRTC.Lib.Run
import BareRTC.Signal.Connection

/-!
# What the parts of the connection leave alone

`Closed R E`: the relation `R` contains all that the connection does to its state outside the two
maps, apart from its settings. Every part of the connection is then safe for `R`, up to the stores
that it makes; those are hypotheses of its lemma.
-/

namespace BareRTC.Signal

variable {α β : Type} {v : Bytes} {m : Msg} {k : Key} {s : St} {l : Machine}

theorem save_ok {size : Nat} (h : v.length < size) : save size v s = .ok v s := by
  rw [save, if_pos h]
  rfl

theorem save_overflow {size : Nat} (h : ¬ v.length < size) : save size v s = .error .overflow s := by
  rw [save, if_neg h]
  rfl

theorem saveId_none (h : m.search k = none) : saveId m k s = .ok none s := by
  rw [saveId, h]
  rfl

theorem saveId_some (h : m.search k = some v)
    (hlen : v.length < MIN_SIZE) : saveId m k s = .ok (some (atoll v)) s := by
  rw [saveId, h]
  exact bind_of_ok (save_ok hlen)

def Callback.next : Callback → Option Callback
  | .createSession => some .publisherCreateHandle
  | .publisherCreateHandle => some .createRoom
  | .createRoom => none
  | .subscriberCreateHandle => none

def Conn.settings (c : Conn) : UInt64 × Bool × Bool × Bool × Bool :=
  (c.mFeedId, c.mAutoSubscribe, c.mAsListener, c.mAsPublisher, c.mRTCConnected)

def acknowledge : ConnM Unit := modConn fun c => { c with mbAliving := true }

structure Closed (R : St → St → Prop) (E : Fault → Prop) : Prop where
  refl : ∀ s, R s s
  trans : ∀ {s₁ s₂ s₃}, R s₁ s₂ → R s₂ s₃ → R s₁ s₃
  observer : ∀ s o, R s { s with evs := s.evs ++ [.observer o] }
  sent : ∀ s r, R s { s with evs := s.evs ++ [.sent r] }
  conn : ∀ s c, c.settings = s.conn.settings → c.mbAliving = s.conn.mbAliving → R s { s with conn := c }
  overflow : E .overflow

variable {r : Request}

namespace Closed

variable {R : St → St → Prop} {E : Fault → Prop} (h : Closed R E) {x : ConnM α}
include h

/-! ## Primitives -/

theorem bind {f : α → ConnM β} (hx : Safe R E x) (hf : ∀ a, Safe R E (f a)) : Safe R E (x >>= f) :=
  Safe.bind h.trans hx hf

theorem pure {a : α} : Safe R E (pure a : ConnM α) := fun s => ⟨h.refl s, nofun⟩

theorem throw {e : Fault} (he : E e) : Safe R E (throw e : ConnM α) :=
  fun s => ⟨h.refl s, fun e' h' => by cases h'; exact he⟩

theorem get : Safe R E (get : ConnM St) := fun s => ⟨h.refl s, nofun⟩

theorem modConn {f : Conn → Conn} (hf : ∀ c, (f c).settings = c.settings)
    (ha : ∀ c, (f c).mbAliving = c.mbAliving) : Safe R E (modConn f) :=
  Safe.modify fun s => h.conn s (f s.conn) (hf s.conn) (ha s.conn)

theorem observe {o : Obs} : Safe R E (observe o) := Safe.modify fun s => h.observer s o

theorem sendMessage : Safe R E (sendMessage r) := by
  refine h.bind h.get fun s => ?_
  split
  · exact Safe.modify fun s => h.sent s r
  · exact h.pure

theorem save {size : Nat} : Safe R E (save size v) := by
  unfold Signal.save
  split
  · exact h.pure
  · exact h.throw h.overflow

theorem saveId : Safe R E (saveId m k) := by
  unfold Signal.saveId
  split
  · exact h.pure
  · exact h.bind (h.save) fun v => h.pure

theorem saveName : Safe R E (saveName v) := h.bind (h.save) fun _ => h.pure

theorem whenSome {o : Option α} {f : α → ConnM Unit} (hf : ∀ a ∈ o, Safe R E (f a)) : Safe R E (whenSome o f) := by
  cases o with
  | none => exact h.pure
  | some a => exact hf a rfl

theorem orElse {x : ConnM Bool} {y : ConnM Unit} (hx : Safe R E x) (hy : Safe R E y) : Safe R E (orElse x y) := by
  refine h.bind hx fun b => ?_
  split
  · exact h.pure
  · exact hy

/-! ## Events -/

theorem derefHandle {jh : Cell RtcJanusHandle} (hf : E (.freedHandle jh)) : Safe R E (derefHandle jh) := by
  refine h.bind h.get fun s => ?_
  split
  · exact h.pure
  · exact h.throw hf

theorem eventLeaving : Safe R E (eventLeaving m) := by
  refine h.bind h.saveId fun o => ?_
  split
  · exact h.pure
  split
  · exact h.pure
  refine h.bind h.get fun s => ?_
  dsimp only
  split
  · exact h.bind (h.modConn (fun _ => rfl) fun _ => rfl) fun _ => h.pure
  split
  · exact h.bind (h.modConn (fun _ => rfl) fun _ => rfl) fun _ => h.pure
  · exact h.bind (h.observe) fun _ => h.pure

theorem eventUnpublished : Safe R E (eventUnpublished m) := by
  unfold Signal.eventUnpublished
  split
  · exact h.pure
  refine h.bind (h.save) fun v => ?_
  split
  · exact h.bind (h.observe) fun _ => h.pure
  refine h.bind h.get fun s => ?_
  split
  · exact h.bind (h.observe) fun _ => h.pure
  · exact h.pure

theorem eventNacks : Safe R E (eventNacks m) := by
  unfold Signal.eventNacks
  split
  · exact h.pure
  split
  · exact h.bind (h.save) fun v => h.bind (h.observe) fun _ => h.pure
  · exact h.pure

theorem eventError : Safe R E (eventError m) := by
  unfold Signal.eventError
  split
  · rename_i hcode herror
    split
    · exact h.pure
    · refine h.bind (h.save) fun code => ?_
      split
      · exact h.pure
      · exact h.bind (h.save) fun v => h.bind (h.observe) fun _ => h.pure
  · exact h.pure

theorem eventJoined {jh : Option (Cell RtcJanusHandle)}
    (hd : ∀ c ∈ jh, Safe R E (Signal.derefHandle c)) (hu : E .uninitialised) :
    Safe R E (eventJoined m jh) := by
  unfold Signal.eventJoined
  split
  · exact h.pure
  split
  · exact h.pure
  split
  · refine h.bind (hd _ rfl) fun c => ?_
    split
    · exact h.observe
    · exact h.throw hu
  · exact h.pure

theorem onRemoteJsep (hu : E .uninitialised) {jh : RtcJanusHandle} {jsep : Bytes} :
    Safe R E (onRemoteJsep jh jsep) := by
  unfold Signal.onRemoteJsep
  split
  · exact h.bind (h.save) fun _ => h.observe
  · exact h.observe
  · exact h.throw hu

theorem eventJsep {jh : Option (Cell RtcJanusHandle)} (hd : ∀ c ∈ jh, Safe R E (Signal.derefHandle c))
    (hr : ∀ c ∈ jh, Safe R E (releaseHandle c)) (hu : E .uninitialised) : Safe R E (eventJsep m jh) := by
  unfold Signal.eventJsep
  split
  · rename_i jsep feed jh _ _
    refine h.bind (hd _ rfl) fun c => ?_
    split
    · exact h.throw hu
    split
    · exact h.pure
    refine h.bind (h.save) fun v => h.bind h.get fun s => ?_
    have hend : Safe R E (do Signal.onRemoteJsep c jsep; releaseHandle jh; return true) :=
      h.bind (h.onRemoteJsep hu) fun _ => h.bind (hr _ rfl) fun _ => h.pure
    dsimp only
    split
    · exact h.bind (h.modConn (fun _ => rfl) fun _ => rfl) fun _ => hend
    · exact hend
  · exact h.pure

theorem eventHandle (hf : ∀ jh, E (.freedHandle jh)) (hr : ∀ c, Safe R E (releaseHandle c)) (hu : E .uninitialised) :
    Safe R E (eventHandle m) :=
  h.bind (h.save) fun _ => h.bind h.get fun _ =>
    h.bind (h.eventJoined (fun _ _ => h.derefHandle (hf _)) hu) fun _ =>
      h.eventJsep (fun _ _ => h.derefHandle (hf _)) (fun _ _ => hr _) hu

variable {rnd : Nat → Nat} {id : UInt64}

theorem subscriberCreateHandle (hemit : ∀ id, Safe R E (emit (.subscribed id (newId rnd))))
    (hfeed : ∀ id, Safe R E (Signal.modConn fun c => { c with mFeedId := id }))
    (hstore : Safe R E (storeTransaction .subscriberCreateHandle rnd)) :
    Safe R E (subscriberCreateHandle rnd id) :=
  h.bind (hemit id) fun _ => h.bind (hfeed id) fun _ => h.bind hstore fun _ =>
    h.bind h.get fun _ => h.sendMessage

/-! ### Subscriptions by an event -/

def MaySubscribe (R : St → St → Prop) (E : Fault → Prop) (rnd : Nat → Nat) (id : UInt64)
    (x : ConnM Unit) : Prop :=
  ∀ s, (R s (Result.state (x s)) ∧ ∀ e ∈ Result.err (x s), E e) ∨
    ∃ s₁, R s s₁ ∧ autoSubscribes s₁.conn id ∧ x s = Signal.subscriberCreateHandle rnd id s₁

omit h in
theorem maySubscribe {x : ConnM Unit} (hx : Safe R E x) : MaySubscribe R E rnd id x := fun s => .inl (hx s)

theorem MaySubscribe.safe {x : ConnM Unit} (hx : MaySubscribe R E rnd id x)
    (hsub : Safe R E (Signal.subscriberCreateHandle rnd id)) : Safe R E x := by
  intro s
  rcases hx s with hx | ⟨s₁, hR, -, he⟩
  · exact hx
  · rw [he]
    exact ⟨h.trans hR (hsub s₁).1, (hsub s₁).2⟩

theorem bind_maySubscribe {f : α → ConnM Unit} (hx : Safe R E x) (hf : ∀ a, MaySubscribe R E rnd id (f a)) :
    MaySubscribe R E rnd id (x >>= f) := by
  intro s
  cases hr : x s with
  | ok a s1 =>
    rw [bind_of_ok hr]
    rcases hf a s1 with ⟨hR, hE⟩ | ⟨s2, hR, hauto, he⟩
    · exact .inl ⟨h.trans (hx.ok hr) hR, hE⟩
    · exact .inr ⟨s2, h.trans (hx.ok hr) hR, hauto, he⟩
  | error e s1 =>
    rw [bind_of_error hr]
    obtain ⟨hR, hE⟩ := hx.error hr
    exact .inl ⟨hR, fun e' he' => by cases he'; exact hE⟩

theorem orElse_maySubscribe {x : ConnM Bool} {y : ConnM Unit} (hx : Safe R E x) (hy : MaySubscribe R E rnd id y) :
    MaySubscribe R E rnd id (Signal.orElse x y) := by
  refine h.bind_maySubscribe hx fun b => ?_
  split
  · exact maySubscribe (h.pure)
  · exact hy

theorem eventPublishers_maySubscribe :
    MaySubscribe R E rnd (atoll (m.val .publisherId)) (Signal.eventPublishers rnd m) := by
  unfold Signal.eventPublishers
  split
  · rename_i v display hid hdisplay
    have hv : m.val .publisherId = v := by rw [Msg.val, hid]; rfl
    have hsave : Safe R E (Signal.save MIN_SIZE v) := h.save
    unfold Signal.save at hsave ⊢
    by_cases hlen : v.length < MIN_SIZE
    swap
    · rw [if_neg hlen] at hsave ⊢
      exact fun s => .inl (hsave s)
    rw [if_pos hlen, hv, pure_bind]
    dsimp only
    split
    · refine h.bind_maySubscribe h.saveName fun name =>
        h.bind_maySubscribe (h.observe) fun _ => ?_
      have hend : MaySubscribe R E rnd (atoll v) (do
          let s ← MonadState.get
          if autoSubscribes s.conn (atoll v) then Signal.subscriberCreateHandle rnd (atoll v)) := by
        intro s
        rw [get_bind]
        by_cases hauto : autoSubscribes s.conn (atoll v)
        · exact .inr ⟨s, h.refl s, hauto, by rw [if_pos hauto]⟩
        · rw [if_neg hauto]
          exact .inl (h.pure s)
      split
      · exact h.bind_maySubscribe (h.modConn (fun _ => rfl) fun _ => rfl) fun _ => hend
      · exact hend
    · exact maySubscribe (h.pure)
  · exact maySubscribe (h.pure)

theorem onEvent_maySubscribe (hhandle : Safe R E (Signal.eventHandle m)) (rnd : Nat → Nat) :
    MaySubscribe R E rnd (atoll (m.val .publisherId)) (Signal.onEvent rnd m) :=
  h.orElse_maySubscribe h.eventLeaving <| h.orElse_maySubscribe h.eventUnpublished <|
    h.orElse_maySubscribe hhandle <| h.orElse_maySubscribe h.eventNacks <|
    h.orElse_maySubscribe h.eventError <| h.eventPublishers_maySubscribe

theorem onEvent (hhandle : Safe R E (Signal.eventHandle m))
    (hsub : ∀ id, Safe R E (Signal.subscriberCreateHandle rnd id)) : Safe R E (onEvent rnd m) :=
  (h.onEvent_maySubscribe hhandle rnd).safe h (hsub _)

theorem sessionData : Safe R E (sessionData m) := by
  unfold Signal.sessionData
  split
  · exact h.pure
  refine h.bind (h.save) fun v => h.bind (h.save) fun w => ?_
  dsimp only
  split
  · split
    · exact h.observe
    · split
      · exact h.observe
      · exact h.pure
  · exact h.pure

theorem sessionUsers : Safe R E (sessionUsers m) := by
  unfold Signal.sessionUsers
  split
  · exact h.pure
  split
  · exact h.bind (h.save) fun _ => h.bind (h.save) fun _ => h.observe
  split
  · exact h.bind (h.save) fun _ => h.observe
  split
  · refine h.bind (h.save) fun _ => h.bind h.saveName fun _ =>
      h.bind (h.observe) fun _ => ?_
    split
    · exact h.bind (h.save) fun _ => h.observe
    · exact h.pure
  · exact h.pure

theorem onSessionEvent : Safe R E (onSessionEvent m) := h.bind h.sessionData fun _ => h.sessionUsers

/-! ## Replies -/

theorem saveUnused : Safe R E (Signal.whenSome (m.search k) Signal.saveUnused) :=
  h.whenSome fun _ _ => h.bind (h.save) fun _ => h.pure

theorem createSessionCallback (hstore : Safe R E (storeTransaction .publisherCreateHandle rnd)) :
    Safe R E (createSessionCallback rnd m) := by
  refine h.bind h.saveId fun o => h.bind (h.whenSome fun id _ => ?_) fun _ =>
    h.bind (h.whenSome fun v _ => ?_) fun _ => h.bind h.saveUnused fun _ =>
    h.bind hstore fun _ => h.bind h.get fun _ => h.sendMessage
  all_goals exact h.modConn (fun _ => rfl) fun _ => rfl

theorem publisherCreateHandleCallback (hstore : Safe R E (storeTransaction .createRoom rnd)) :
    Safe R E (publisherCreateHandleCallback rnd m) :=
  h.bind h.saveId fun _ => h.whenSome fun _ _ =>
    h.bind hstore fun _ => h.bind h.get fun _ => h.sendMessage

theorem createRoomCallback (hstore : ∀ id role, Safe R E (storeHandle 0 id role)) : Safe R E (createRoomCallback m) := by
  refine h.bind h.saveId fun o => ?_
  dsimp only
  refine h.bind h.saveId fun o' => h.bind (h.whenSome fun id _ => ?_) fun _ =>
    h.bind h.saveUnused fun _ => h.bind h.get fun s => ?_
  · exact h.modConn (fun _ => rfl) fun _ => rfl
  split
  · exact h.bind (hstore _ _) fun _ => h.bind h.get fun _ => h.sendMessage
  split
  · exact h.bind (hstore _ _) fun _ => h.bind h.get fun _ => h.sendMessage
  · exact hstore _ _

theorem subscriberCreateHandleCallback (hstore : ∀ id, Safe R E (storeHandle 1 id .subscriber)) :
    Safe R E (subscriberCreateHandleCallback m) :=
  h.bind h.saveId fun _ => h.bind (hstore _) fun _ =>
    h.bind h.get fun _ => h.bind h.get fun _ => h.sendMessage

theorem runCallback {cb : Callback} (hstore : ∀ cb' ∈ cb.next, Safe R E (storeTransaction cb' rnd))
    (hhandle : ∀ slot id role, Safe R E (storeHandle slot id role)) : Safe R E (runCallback rnd m cb) := by
  cases cb with
  | createSession => exact h.createSessionCallback (hstore _ rfl)
  | publisherCreateHandle => exact h.publisherCreateHandleCallback (hstore _ rfl)
  | createRoom => exact h.createRoomCallback (hhandle 0)
  | subscriberCreateHandle => exact h.subscriberCreateHandleCallback (hhandle 1 · _)

/-! ## Messages that answer no transaction -/

theorem onHangup : Safe R E (onHangup m) := by
  unfold Signal.onHangup
  split
  · exact h.observe
  · exact h.bind (h.save) fun _ => h.observe

theorem onSlowlink : Safe R E (onSlowlink m) := by
  unfold Signal.onSlowlink
  split
  · exact h.pure
  · exact h.bind (h.save) fun _ => h.observe

/-! ## Replies, of any slot -/

structure Replies (R : St → St → Prop) (E : Fault → Prop) (rnd : Nat → Nat) : Prop where
  stores : ∀ cb, Safe R E (storeTransaction cb rnd)
  handles : ∀ slot id role, Safe R E (storeHandle slot id role)
  onSuccess : ∀ i jt, Safe R E (emit (.onSuccess i jt))
  onError : ∀ i jt, Safe R E (emit (.onError i jt))
  release : ∀ i jt, Safe R E (releaseTransaction i jt)
  freed : ∀ jt, E (.freedTransaction jt)
  null : E .nullDeref

variable (hr : Replies R E rnd)
include hr

variable {jt : Cell RtcJanusTransaction}

theorem derefTransaction : Safe R E (derefTransaction jt) := by
  refine h.bind h.get fun s => ?_
  split
  · exact h.pure
  · exact h.throw (hr.freed jt)

variable {i : Fin 8}

theorem succeed : Safe R E (succeed rnd m i) := by
  refine h.bind h.get fun s => ?_
  split
  · exact h.throw hr.null
  · exact h.bind (h.derefTransaction hr) fun t => h.bind (hr.onSuccess i _) fun _ =>
      h.bind (h.runCallback (fun cb _ => hr.stores cb) hr.handles) fun _ => hr.release i _

theorem failWith : Safe R E (failWith i jt) :=
  h.bind (h.derefTransaction hr) fun _ => h.bind (hr.onError i jt) fun _ => hr.release i jt

variable {is : List (Fin 8)}

theorem successLoop : Safe R E (successLoop rnd m is) := by
  induction is with
  | nil => exact h.pure
  | cons i is ih =>
    refine h.bind h.get fun s => ?_
    split
    · exact h.succeed hr
    · exact ih

theorem errorLoop : Safe R E (errorLoop m is) := by
  induction is with
  | nil => exact h.pure
  | cons i is ih =>
    refine h.bind h.get fun s => ?_
    dsimp only
    split
    · split
      · exact h.failWith hr
      · exact ih
    · exact ih

omit hr in
theorem onKind {k : Kind} (hr : k = .success ∨ k = .error → Replies R E rnd)
    (hev : k = .event → Safe R E (Signal.onEvent rnd m)) (hack : k = .ack → Safe R E acknowledge) :
    Safe R E (onKind rnd m k) := by
  cases k with
  | success => exact h.successLoop (hr (.inl rfl))
  | error => exact h.errorLoop (hr (.inr rfl))
  | event => exact hev rfl
  | ack => exact hack rfl
  | sessionevent => exact h.onSessionEvent
  | webrtcup => exact h.bind h.saveId fun _ => h.observe
  | media => exact h.observe
  | hangup => exact h.onHangup
  | slowlink => exact h.onSlowlink

end Closed

theorem subscriberCreateHandle_ok {rnd : Nat → Nat} {id : UInt64} :
    ∃ s', subscriberCreateHandle rnd id s = .ok () s' ∧ s'.conn.mFeedId = id ∧
      s'.mJanusTransactionMap = s.mJanusTransactionMap.store Callback.subscriberCreateHandle.slot
        ⟨newId rnd, .subscriberCreateHandle⟩ ∧
      s'.evs = s.evs ++ [.subscribed id (newId rnd)] ++
        if s.conn.mRTCConnected then [.sent (.attach (newId rnd) s.conn.mSessionId)] else [] := by
  unfold subscriberCreateHandle storeTransaction modConn emit sendMessage
  rw [bind_of_ok (modify_apply), bind_of_ok (modify_apply), bind_of_ok (modify_apply), get_bind, get_bind]
  cases h : s.conn.mRTCConnected <;> simp [h, emit]

/-! ## Messages -/

theorem sendMessage_not (h : ¬ s.conn.mRTCConnected) : sendMessage r s = .ok () s := by
  rw [sendMessage, get_bind, if_neg h]
  rfl

theorem keepAlive_not (h : ¬ s.conn.mRTCConnected ∨ s.conn.mSessionId = 0) : keepAlive s = .ok () s := by
  rw [keepAlive, get_bind]
  split
  · rfl
  · rename_i hs
    exact sendMessage_not (h.resolve_right hs)

theorem onRTCMessage_eq (h : s.conn.mRTCConnected) (rnd : Nat → Nat) (m : Msg) :
    onRTCMessage rnd m s = match m.kind with
      | none => .ok () s
      | some k => onKind rnd m k s := by
  rw [onRTCMessage, get_bind, if_pos h]
  cases m.kind <;> rfl

theorem onRTCMessage_not (h : ¬ s.conn.mRTCConnected) {rnd : Nat → Nat} :
    onRTCMessage rnd m s = .ok () s := by
  rw [onRTCMessage, get_bind, if_neg h]
  rfl

theorem onRTCMessage_safe {R : St → St → Prop} {E : Fault → Prop} (h : Closed R E)
    {rnd : Nat → Nat} (hk : ∀ k ∈ m.kind, Safe R E (onKind rnd m k)) :
    Safe R E (onRTCMessage rnd m) := by
  refine h.bind h.get fun s => ?_
  split
  · split
    · exact h.pure
    · rename_i k hk'
      exact hk k hk'
  · exact h.pure

theorem step_of_fault (h : l.fault ≠ none) {i : In} : step l i = (l, []) := by
  obtain ⟨e, he⟩ := Option.ne_none_iff_exists'.1 h
  simp only [step, he]

def Machine.start (l : Machine) : St := { l.st with evs := [] }

theorem step_of_none (h : l.fault = none) (i : In) :
    step l i = (⟨Result.state (i.run l.start), Result.err (i.run l.start)⟩, (Result.state (i.run l.start)).evs) := by
  simp only [step, h]
  unfold Machine.start
  cases i.run { l.st with evs := [] } <;> rfl

end BareRTC.Signal
