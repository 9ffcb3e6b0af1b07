import BareRTC.Signal.Proof.Transactions

/-!
# The copies of values in messages

Every copy of a value is bounded by the length of the value and not by its buffer. `copies` are the
copies that are made while a message is handled, up to where its handler returns or fails by
something else; all of them fit exactly if the handler does not overflow (`copies_fit_iff`).
-/

namespace BareRTC.Signal

open EStateM (Result)

variable {α β : Type} {m : Msg} {k : Key} {s : St} {v : Bytes} {size : Nat}

abbrev Copy := Nat × Bytes

def Fit (cs : List Copy) : Prop := ∀ c ∈ cs, c.2.length < c.1

@[simp] theorem fit_nil : Fit [] := nofun

@[simp] theorem fit_cons {c : Copy} {cs : List Copy} : Fit (c :: cs) ↔ c.2.length < c.1 ∧ Fit cs :=
  List.forall_mem_cons

@[simp] theorem fit_append {cs cs' : List Copy} : Fit (cs ++ cs') ↔ Fit cs ∧ Fit cs' :=
  List.forall_mem_append

/-! ## Which copies are made -/

def Msg.copy (m : Msg) (k : Key) : Copy := (MIN_SIZE, m.val k)

def Callback.keys : Callback → List Key
  | .createSession => [.dataId, .dataVersion]
  | .publisherCreateHandle | .subscriberCreateHandle => [.dataId]
  | .createRoom => [.sender, .room, .jsep]

def callback (map : TransactionMap) (m : Msg) : Option Callback :=
  (answered map m).bind fun i => ((map.jts.slot i).filter (map.jts.Live ·)).map (·.val.onSuccess)

abbrev Part := List Copy × Bool

def Part.then (p : Part) (cs : List Copy) : List Copy := p.1 ++ if p.2 then [] else cs

def leavingPart (m : Msg) : Part := ([m.copy .leaving], atoll (m.val .leaving) ≠ 0)

def unpublishedPart (feedId : UInt64) (m : Msg) : Part :=
  match m.search .unpublished with
  | none => ([], false)
  | some v => ([(MIN_SIZE, v)], strncmpEq (ascii "ok") v ∨ (atoll v ≠ 0 ∧ atoll v = feedId))

def joinFails (map : HandlesMap) (m : Msg) (jh : Cell RtcJanusHandle) : Bool :=
  (m.search .videoroom).any (strncmpEq (ascii "joined")) ∧
    (¬ map.jhs.Live jh ∨ jh.val.role ≠ .publisher)

def jsepPart (map : HandlesMap) (m : Msg) (jh : Cell RtcJanusHandle) : Part :=
  match m.search .jsep, (m.search .configured).or (m.search .id) with
  | some jsep, some feed =>
    if ¬ map.jhs.Live jh ∨ jh.val.role = .unset then ([], true)
    else if strncmpEq [] jsep then ([], false)
    else ((MIN_SIZE, feed) ::
      if jh.val.role = .publisher then [(MIN_SIZE * 100, jsep)] else [], true)
  | _, _ => ([], false)

def handlePart (map : HandlesMap) (m : Msg) : Part :=
  let p : Part := match findHandle map (atoll (m.val .sender)) with
    | none => ([], false)
    | some jh => if joinFails map m jh then ([], true) else jsepPart map m jh
  (m.copy .sender :: p.1, p.2)

def nacksPart (m : Msg) : Part :=
  if (m.search .pluginNacks).isSome ∧ strncmpEq (ascii "listener_slow_link") (m.val .videoroom) ∧
      strncmpEq [] (m.val .pluginNacks) = false then ([m.copy .pluginNacks], true)
  else ([], false)

def errorPart (m : Msg) : Part :=
  match m.search .transaction, m.search .errorCode, m.search .error with
  | some tid, some code, some error =>
    if strncmpEq [] tid then ([], false)
    else if strncmpEq [] error then ([(MIN_SIZE, code)], false)
    else ([(MIN_SIZE, code), (MIN_SIZE, error)], true)
  | _, _, _ => ([], false)

def publisherCopies (m : Msg) : List Copy :=
  match m.search .publisherId, m.search .publisherDisplay with
  | some id, some display =>
    (MIN_SIZE, id) :: if strncmpEq [] display then [] else [(MIN_SIZE, display)]
  | _, _ => []

def userCopies (m : Msg) : List Copy :=
  if m.search .userevent = none then []
  else if (m.nonempty .ueJoined).isSome then [m.copy .ueJoined, m.copy .ueDisplay]
  else if (m.nonempty .ueLeaving).isSome then [m.copy .ueLeaving]
  else if (m.nonempty .userId).isSome then
    [m.copy .userId, (MIN_SIZE, (m.nonempty .userDisplay).getD []),
      (MIN_SIZE, (m.nonempty .userAttribute).getD [])]
  else []

def sessionCopies (m : Msg) : List Copy :=
  (if (m.search .recvData).isSome then [m.copy .recvData, m.copy .recvFrom] else []) ++ userCopies m

def copies (s : St) (m : Msg) : Kind → List Copy
  | .success => (callback s.mJanusTransactionMap m).toList.flatMap fun cb => cb.keys.map m.copy
  | .event => (leavingPart m).then <| (unpublishedPart s.conn.mFeedId m).then <|
      (handlePart s.mJanusHandlesMap m).then <| (nacksPart m).then <| (errorPart m).then <|
      publisherCopies m
  | .sessionevent => sessionCopies m
  | .webrtcup => [m.copy .sender]
  | .hangup => [(20, m.val .sender)]
  | .slowlink => [(20, m.val .nacks)]
  | .error | .ack | .media => []

theorem Msg.copy_nonempty {v : Bytes} (h : m.nonempty k = some v) : m.copy k = (MIN_SIZE, v) := by
  rw [Msg.copy, Msg.val, (Option.filter_eq_some_iff.1 h).1, Option.getD_some]

/-! ## Programs that do not overflow -/

def Fine (x : ConnM α) (s : St) : Prop := Result.err (x s) ≠ some .overflow

variable {f : α → ConnM β} {g : St → St} {e : Fault}

variable {a : α}

@[simp] theorem fine_pure : Fine (pure a) s := nofun

theorem fine_throw (h : e ≠ .overflow) : Fine (throw e : ConnM α) s := fun heq => h (Option.some.inj heq)

@[simp] theorem fine_get_bind {f : St → ConnM β} : Fine (get >>= f) s ↔ Fine (f s) s := Iff.rfl

@[simp] theorem fine_save_bind {f : Bytes → ConnM β} :
    Fine (save size v >>= f) s ↔ v.length < size ∧ Fine (f v) s := by
  by_cases h : v.length < size
  · simp [Fine, bind_of_ok (save_ok h), h]
  · simp [Fine, bind_of_error (save_overflow h), h, Result.err]

/-! ## Events -/

structure Part.Of (p : Part) (x : ConnM Bool) (s : St) : Prop where
  fine : Fine x s ↔ Fit p.1
  passes : Fit p.1 ∧ p.2 = false → ∃ evs, x s = .ok false { s with evs := evs }
  ends : p.2 → ∀ s', x s ≠ .ok false s'

/-- It ends the event exactly if a copy does not fit or it handles the event. -/
theorem Part.Of.stops {p : Part} {x : ConnM Bool} {s' : St} (h : p.Of x s)
    (hp : ¬ (Fit p.1 ∧ p.2 = false)) : x s ≠ .ok false s' := by
  intro hx
  refine hp ⟨h.fine.1 (by simp [Fine, hx, Result.err]), ?_⟩
  by_contra hends
  exact h.ends (by simpa using hends) s' hx

theorem orElse_pass {x : ConnM Bool} {y : ConnM Unit} {s' : St} (h : x s = .ok false s') :
    orElse x y s = y s' := by
  rw [orElse, bind_of_ok h]
  rfl

theorem Part.Of.orElse {p : Part} {x : ConnM Bool} {y : ConnM Unit} {cs : List Copy}
    (h : p.Of x s) (hy : ∀ evs, Fine y { s with evs := evs } ↔ Fit cs) :
    Fine (orElse x y) s ↔ Fit (p.then cs) := by
  rw [Part.then, fit_append]
  by_cases hp : Fit p.1 ∧ p.2 = false
  · obtain ⟨evs, hx⟩ := h.passes hp
    rw [Fine, orElse_pass hx, hp.2]
    exact (hy evs).trans (by simp [hp.1])
  have hthen : Fit p.1 → Fit (if p.2 then [] else cs) := by
    intro hfit
    simp only [hfit, true_and, Bool.not_eq_false] at hp
    simp [hp]
  rw [and_iff_left_of_imp hthen, ← h.fine, Fine, Fine, Signal.orElse]
  cases hx : x s with
  | error e s' => rw [bind_of_error hx]; rfl
  | ok b s' =>
    cases b with
    | false => exact absurd hx (h.stops hp)
    | true => rw [bind_of_ok hx]; rfl

namespace Part.Of

variable {x : ConnM Bool} {cs : List Copy} {b : Bool} {s' : St}

theorem passed : Part.Of ([], false) (pure false) s := ⟨by simp, fun _ => ⟨s.evs, rfl⟩, nofun⟩

theorem handled (h : ∃ s', x s = .ok true s') : Part.Of ([], true) x s := by
  obtain ⟨s', h⟩ := h
  exact ⟨iff_of_true (by simp [Fine, h, Result.err]) fit_nil, nofun, fun _ _ => by simp [h]⟩

theorem fails (h : x s = .error e s') (he : e ≠ .overflow) : Part.Of ([], true) x s :=
  ⟨iff_of_true (by simpa [Fine, h, Result.err] using he) fit_nil, nofun, fun _ _ => by simp [h]⟩

theorem get {p : Part} {f : St → ConnM Bool} (h : p.Of (f s) s) : p.Of (get >>= f) s :=
  ⟨h.fine, h.passes, h.ends⟩

theorem modify (h : Part.Of (cs, true) x (g s)) : Part.Of (cs, true) (modify g >>= fun _ => x) s :=
  ⟨h.fine, nofun, h.ends⟩

theorem after {p : Part} {y : ConnM α} {f : α → ConnM Bool} {a : α} {evs : List Ev}
    (hy : y s = .ok a { s with evs := evs }) (h : p.Of (f a) { s with evs := evs }) :
    p.Of (y >>= f) s := by
  have hrun : (y >>= f) s = f a { s with evs := evs } := bind_of_ok hy
  refine ⟨?_, ?_, ?_⟩
  · rw [Fine, hrun]
    exact h.fine
  · rw [hrun]
    exact h.passes
  · rw [hrun]
    exact h.ends

theorem same {p : Part} {y : ConnM α} {f : α → ConnM Bool} {a : α} (hy : y s = .ok a s)
    (h : p.Of (f a) s) : p.Of (y >>= f) s :=
  after hy h

theorem save {f : Bytes → ConnM Bool} (h : Part.Of (cs, b) (f v) s) :
    Part.Of ((size, v) :: cs, b) (save size v >>= f) s := by
  refine ⟨by rw [fine_save_bind, h.fine, fit_cons], ?_, ?_⟩
  · rintro ⟨hfit, hb⟩
    rw [bind_of_ok (save_ok (fit_cons.1 hfit).1)]
    exact h.passes ⟨(fit_cons.1 hfit).2, hb⟩
  · intro hb s'
    by_cases hlen : v.length < size
    · rw [bind_of_ok (save_ok hlen)]
      exact h.ends hb s'
    · rw [bind_of_error (save_overflow hlen)]
      exact nofun

theorem saveId {f : Option UInt64 → ConnM Bool}
    (h : Part.Of (cs, b) (f ((m.search k).map atoll)) s) :
    Part.Of (m.copy k :: cs, b) (saveId m k >>= f) s := by
  unfold Signal.saveId Msg.copy Msg.val
  cases hv : m.search k with
  | none =>
    rw [hv] at h
    exact ⟨h.fine.trans (by simp [MIN_SIZE]), fun hp => h.passes ⟨(fit_cons.1 hp.1).2, hp.2⟩, h.ends⟩
  | some v =>
    rw [hv] at h
    simp only [bind_assoc, pure_bind]
    exact save h

end Part.Of

theorem leavingPart_of : (leavingPart m).Of (eventLeaving m) s := by
  refine Part.Of.saveId ?_
  unfold Msg.val
  cases m.search .leaving with
  | none => exact .passed
  | some v =>
    dsimp only [Option.map, Option.getD]
    by_cases hid : atoll v = 0
    · rw [if_pos hid, decide_eq_false (not_not.2 hid)]
      exact .passed
    rw [if_neg hid, decide_eq_true hid]
    refine .get ?_
    split
    · exact .handled ⟨_, rfl⟩
    split <;> exact .handled ⟨_, rfl⟩

theorem unpublishedPart_of :
    (unpublishedPart s.conn.mFeedId m).Of (eventUnpublished m) s := by
  unfold unpublishedPart eventUnpublished
  cases m.search .unpublished with
  | none => exact .passed
  | some v =>
    refine Part.Of.save ?_
    by_cases hok : strncmpEq (ascii "ok") v
    · rw [decide_eq_true (.inl hok), if_pos hok]
      exact .handled ⟨_, rfl⟩
    rw [if_neg hok]
    refine .get ?_
    by_cases hid : atoll v ≠ 0 ∧ atoll v = s.conn.mFeedId
    · rw [decide_eq_true (.inr hid), if_pos hid]
      exact .handled ⟨_, rfl⟩
    · rw [decide_eq_false (not_or.2 ⟨hok, hid⟩), if_neg hid]
      exact .passed

theorem nacksPart_of : (nacksPart m).Of (eventNacks m) s := by
  unfold nacksPart eventNacks Msg.copy Msg.val
  cases m.search .pluginNacks with
  | none => exact .passed
  | some v =>
    simp only [Option.isSome_some, true_and, Option.getD_some]
    split
    · exact .save (.handled ⟨_, rfl⟩)
    · exact .passed

theorem errorPart_of : (errorPart m).Of (eventError m) s := by
  unfold errorPart eventError
  cases m.search .transaction with
  | none => exact .passed
  | some tid =>
  cases m.search .errorCode with
  | none => exact .passed
  | some code =>
  cases m.search .error with
  | none => exact .passed
  | some error =>
    dsimp only
    split
    · exact .passed
    split
    · exact .save .passed
    · exact .save (.save (.handled ⟨_, rfl⟩))

theorem onRemoteJsep_of {h : RtcJanusHandle} {jsep : Bytes} {y : ConnM Bool}
    (hrole : h.role ≠ .unset) (hy : ∀ s, ∃ s', y s = .ok true s') :
    Part.Of (if h.role = .publisher then [(MIN_SIZE * 100, jsep)] else [], true)
      (onRemoteJsep h jsep >>= fun _ => y) s := by
  unfold onRemoteJsep
  cases hr : h.role with
  | publisher =>
    simp only [bind_assoc, if_true]
    exact .save (.handled (hy _))
  | subscriber => exact .handled (hy _)
  | unset => exact absurd hr hrole

section
variable {jh : Cell RtcJanusHandle}

theorem derefHandle_live (h : s.mJanusHandlesMap.jhs.Live jh) :
    derefHandle jh s = .ok jh.val s := by
  rw [derefHandle, get_bind, if_pos h]
  rfl

theorem derefHandle_freed (h : ¬ s.mJanusHandlesMap.jhs.Live jh) :
    derefHandle jh s = .error (.freedHandle jh) s := by
  rw [derefHandle, get_bind, if_neg h]
  rfl

theorem jsepPart_of (m : Msg) (s : St) :
    (jsepPart s.mJanusHandlesMap m jh).Of (eventJsep m (some jh)) s := by
  unfold jsepPart eventJsep
  cases m.search .jsep with
  | none => exact .passed
  | some jsep =>
  cases (m.search .configured).or (m.search .id) with
  | none => exact .passed
  | some feed =>
    dsimp only
    by_cases hlive : s.mJanusHandlesMap.jhs.Live jh
    swap
    · rw [if_pos (.inl hlive)]
      exact .fails (bind_of_error (derefHandle_freed hlive)) nofun
    refine .same (derefHandle_live hlive) ?_
    by_cases hrole : jh.val.role = .unset
    · rw [if_pos (.inr hrole), if_pos hrole]
      exact .fails rfl nofun
    rw [if_neg (not_or.2 ⟨not_not.2 hlive, hrole⟩), if_neg hrole]
    split
    · exact .passed
    refine .save (.get ?_)
    have hend (s : St) : ∃ s', (do releaseHandle jh; return true : ConnM Bool) s = .ok true s' :=
      ⟨_, rfl⟩
    by_cases hfeed : atoll feed ≠ 0 ∧ atoll feed = s.conn.mFeedId
    · rw [if_pos hfeed]
      exact .modify (onRemoteJsep_of hrole hend)
    · rw [if_neg hfeed]
      exact onRemoteJsep_of hrole hend

theorem eventJoined_cases (m : Msg) (jh : Cell RtcJanusHandle) (s : St) :
    joinFails s.mJanusHandlesMap m jh = true ∧ eventJoined m (some jh) s = .error
      (if s.mJanusHandlesMap.jhs.Live jh then .uninitialised else .freedHandle jh) s ∨
    joinFails s.mJanusHandlesMap m jh = false ∧
      ∃ evs, eventJoined m (some jh) s = .ok () { s with evs := evs } := by
  unfold joinFails eventJoined
  cases m.search .videoroom with
  | none => exact .inr ⟨rfl, s.evs, rfl⟩
  | some v =>
    by_cases hjoin : strncmpEq (ascii "joined") v
    swap
    · exact .inr ⟨by simp [hjoin], s.evs, by simp [hjoin]⟩
    simp only [Option.any_some, hjoin, if_true, true_and]
    by_cases hlive : s.mJanusHandlesMap.jhs.Live jh
    swap
    · rw [if_neg hlive]
      exact .inl ⟨decide_eq_true (.inl hlive), bind_of_error (derefHandle_freed hlive)⟩
    rw [bind_of_ok (derefHandle_live hlive), if_pos hlive]
    cases hrole : jh.val.role with
    | publisher => exact .inr ⟨decide_eq_false (by simpa using hlive), _, rfl⟩
    | subscriber | unset => exact .inl ⟨decide_eq_true (.inr nofun), rfl⟩

end

theorem eventJsep_none : eventJsep m none = pure false := by
  unfold eventJsep
  cases m.search .jsep <;> cases (m.search .configured).or (m.search .id) <;> rfl

theorem handlePart_of :
    (handlePart s.mJanusHandlesMap m).Of (eventHandle m) s := by
  refine .save (.get ?_)
  cases findHandle s.mJanusHandlesMap (atoll (m.val .sender)) with
  | none =>
    refine .same rfl ?_
    rw [eventJsep_none]
    exact .passed
  | some jh =>
    dsimp only
    obtain ⟨hfails, hrun⟩ | ⟨hfails, evs, hrun⟩ := eventJoined_cases m jh s
    · rw [hfails]
      exact .fails (bind_of_error hrun) (by split <;> exact nofun)
    · rw [hfails]
      exact .after hrun (jsepPart_of m { s with evs := evs })

/-! ## Programs that fail by nothing else -/

def Makes (cs : List Copy) (x : ConnM α) : Prop :=
  ∀ s, (Fit cs ∧ ∃ a s', x s = .ok a s') ∨ (¬ Fit cs ∧ ∃ s', x s = .error .overflow s')

variable {rnd : Nat → Nat}

namespace Makes

variable {cs cs' : List Copy} {x : ConnM α}

theorem fine (h : Makes cs x) : Fine x s ↔ Fit cs := by
  obtain ⟨hfit, a, s', hx⟩ | ⟨hfit, s', hx⟩ := h s
  · exact iff_of_true (by simp [Fine, hx, Result.err]) hfit
  · exact iff_of_false (by simp [Fine, hx, Result.err]) hfit

theorem congr (h : Makes cs x) (hcs : Fit cs ↔ Fit cs') : Makes cs' x := fun s => by
  rw [← hcs]
  exact h s

theorem bind (hx : Makes cs x) (hf : ∀ a, Makes cs' (f a)) : Makes (cs ++ cs') (x >>= f) := by
  intro s
  rw [fit_append]
  obtain ⟨hfit, a, s', hx⟩ | ⟨hfit, s', hx⟩ := hx s
  · rw [bind_of_ok hx]
    simpa only [hfit, true_and] using hf a s'
  · rw [bind_of_error hx]
    exact .inr ⟨fun h => hfit h.1, s', rfl⟩

theorem pure : Makes [] (pure a : ConnM α) := fun s => .inl ⟨fit_nil, a, s, rfl⟩

theorem modify : Makes [] (modify g : ConnM Unit) := fun s => .inl ⟨fit_nil, (), g s, rfl⟩

theorem get : Makes [] (get : ConnM St) := fun s => .inl ⟨fit_nil, s, s, rfl⟩

theorem ite {c : Prop} [Decidable c] {y : ConnM α} (hx : Makes cs x) (hy : Makes cs y) :
    Makes cs (if c then x else y) := by
  split <;> assumption

theorem save : Makes [(size, v)] (save size v) := fun s => by
  by_cases h : v.length < size
  · exact .inl ⟨by simpa using h, v, s, save_ok h⟩
  · exact .inr ⟨by simpa using h, s, save_overflow h⟩

theorem saveName : Makes [(MIN_SIZE, v)] (saveName v) := save.bind fun _ => pure

theorem saveId : Makes [m.copy k] (saveId m k) := by
  unfold Signal.saveId Msg.copy Msg.val
  cases m.search k with
  | none => exact (pure).congr (by simp [MIN_SIZE])
  | some v => exact save.bind fun _ => pure

theorem sendMessage {r : Request} : Makes [] (sendMessage r) :=
  get.bind fun _ => ite modify (pure)

theorem whenSome {o : Option α} {f : α → ConnM Unit} (h : ∀ a, Makes [] (f a)) :
    Makes [] (whenSome o f) := by
  cases o with
  | none => exact pure
  | some a => exact h a

theorem saveUnused : Makes [m.copy k] (Signal.whenSome (m.search k) saveUnused) := by
  unfold Msg.copy Msg.val
  cases m.search k with
  | none => exact (pure).congr (by simp [MIN_SIZE])
  | some v => exact save.bind fun _ => pure

/-! ### Callbacks -/

theorem createSession :
    Makes [m.copy .dataId, m.copy .dataVersion] (createSessionCallback rnd m) := by
  refine saveId.bind fun _ => (whenSome fun _ => modify).bind fun _ => ?_
  refine (whenSome fun _ => modify).bind fun _ => saveUnused.bind fun _ => ?_
  exact modify.bind fun _ => get.bind fun _ => sendMessage

theorem createRoom :
    Makes [m.copy .sender, m.copy .room, m.copy .jsep] (createRoomCallback m) := by
  refine saveId.bind fun _ => saveId.bind fun _ => (whenSome fun _ => modify).bind fun _ => ?_
  refine saveUnused.bind fun _ => get.bind fun _ => ite ?_ (ite ?_ modify)
  all_goals exact modify.bind fun _ => get.bind fun _ => sendMessage

theorem runCallback {cb : Callback} :
    Makes (cb.keys.map m.copy) (runCallback rnd m cb) := by
  cases cb with
  | createSession => exact createSession
  | publisherCreateHandle =>
    refine saveId.bind fun _ => whenSome fun _ => ?_
    exact modify.bind fun _ => get.bind fun _ => sendMessage
  | createRoom => exact createRoom
  | subscriberCreateHandle =>
    refine saveId.bind fun _ => modify.bind fun _ => get.bind fun _ => ?_
    exact get.bind fun _ => sendMessage

/-! ### Events -/

theorem eventPublishers :
    Makes (publisherCopies m) (eventPublishers rnd m) := by
  unfold publisherCopies Signal.eventPublishers
  cases m.search .publisherId with
  | none => exact pure
  | some id =>
  cases m.search .publisherDisplay with
  | none => exact pure
  | some display =>
    have hsubscribe (id : UInt64) : Makes [] (subscriberCreateHandle rnd id) :=
      modify.bind fun _ => modify.bind fun _ => modify.bind fun _ => get.bind fun _ => sendMessage
    dsimp only
    cases strncmpEq [] display with
    | true => exact save.bind fun _ => pure
    | false =>
      refine save.bind fun _ => saveName.bind fun _ => modify.bind fun _ => ?_
      refine ite (modify.bind fun _ => ?_) ?_
      all_goals exact get.bind fun _ => ite (hsubscribe _) (pure)

theorem sessionData :
    Makes (if (m.search .recvData).isSome then [m.copy .recvData, m.copy .recvFrom] else [])
      (sessionData m) := by
  unfold Signal.sessionData Msg.copy Msg.val
  cases m.search .recvData with
  | none => exact pure
  | some v =>
    refine save.bind fun _ => save.bind fun _ => ?_
    split
    · exact ite modify (ite modify (pure))
    · exact pure

theorem sessionUsers : Makes (userCopies m) (sessionUsers m) := by
  unfold Signal.sessionUsers userCopies
  by_cases hevent : m.search .userevent = none
  · rw [if_pos hevent, if_pos hevent]
    exact pure
  rw [if_neg hevent, if_neg hevent]
  cases hjoined : m.nonempty .ueJoined with
  | some v =>
    rw [m.copy_nonempty hjoined]
    exact save.bind fun _ => save.bind fun _ => modify
  | none =>
  cases hleaving : m.nonempty .ueLeaving with
  | some v =>
    rw [m.copy_nonempty hleaving]
    exact save.bind fun _ => modify
  | none =>
  cases hid : m.nonempty .userId with
  | none => exact pure
  | some v =>
    rw [m.copy_nonempty hid]
    refine save.bind fun _ => saveName.bind fun _ => modify.bind fun _ => ?_
    cases m.nonempty .userAttribute with
    | none => exact (pure).congr (by simp [MIN_SIZE])
    | some v => exact save.bind fun _ => modify

theorem onHangup : Makes [(20, m.val .sender)] (onHangup m) := by
  unfold Signal.onHangup Msg.val
  cases m.search .sender with
  | none => exact modify.congr (by simp)
  | some v => exact save.bind fun _ => modify

theorem onSlowlink : Makes [(20, m.val .nacks)] (onSlowlink m) := by
  unfold Signal.onSlowlink Msg.val
  cases m.search .nacks with
  | none => exact (pure).congr (by simp)
  | some v => exact save.bind fun _ => modify

end Makes

theorem fine_derefTransaction_bind {jt : Cell RtcJanusTransaction}
    {f : RtcJanusTransaction → ConnM β} : Fine (derefTransaction jt >>= f) s ↔
      (s.mJanusTransactionMap.jts.Live jt → Fine (f jt.val) s) := by
  rw [derefTransaction, bind_assoc, fine_get_bind]
  split
  · next h => simp [h]
  · next h => exact iff_of_true (fine_throw (by simp)) fun hlive => absurd hlive h

theorem onSuccess_fine :
    Fine (onKind rnd m .success) s ↔ Fit (copies s m .success) := by
  rw [copies, callback, Fine, onKind_success]
  cases answered s.mJanusTransactionMap m with
  | none => simp [Result.err]
  | some i =>
    show Fine (succeed rnd m i) s ↔ _
    rw [Option.bind_some, succeed, fine_get_bind]
    cases s.mJanusTransactionMap.jts.slot i with
    | none => exact iff_of_true (fine_throw (by simp)) (by simp)
    | some jt =>
      rw [fine_derefTransaction_bind]
      by_cases hlive : s.mJanusTransactionMap.jts.Live jt
      swap
      · exact iff_of_true (fun h => absurd h hlive) (by simp [Option.filter, hlive])
      simp only [hlive, true_imp_iff, Option.filter_some, decide_true, if_true, Option.map_some,
        Option.toList_some, List.flatMap_cons, List.flatMap_nil]
      exact (Makes.modify.bind fun _ => (Makes.runCallback).bind fun _ => .modify).fine

theorem onError_fine {is : List (Fin 8)} : Fine (errorLoop m is) s := by
  induction is with
  | nil => simp [errorLoop]
  | cons i is ih =>
    rw [errorLoop, fine_get_bind]
    dsimp only
    split
    · split
      · rw [failWith, fine_derefTransaction_bind]
        exact fun _ => ((Makes.modify (g := _)).bind fun _ => .modify).fine |>.2 fit_nil
      · exact ih
    · exact ih

theorem onEvent_fine :
    Fine (onEvent rnd m) s ↔ Fit (copies s m .event) := by
  refine (leavingPart_of).orElse fun _ => (unpublishedPart_of).orElse fun _ => ?_
  refine (handlePart_of).orElse fun _ => (nacksPart_of).orElse fun _ => ?_
  exact (errorPart_of).orElse fun _ => (Makes.eventPublishers).fine

theorem onKind_fine {k : Kind} :
    Fine (onKind rnd m k) s ↔ Fit (copies s m k) := by
  cases k with
  | success => exact onSuccess_fine
  | error => exact iff_of_true (onError_fine) fit_nil
  | event => exact onEvent_fine
  | ack => exact Makes.modify.fine
  | sessionevent => exact ((Makes.sessionData).bind fun _ => .sessionUsers).fine
  | webrtcup => exact (Makes.saveId.bind fun _ => .modify).fine
  | media => exact Makes.modify.fine
  | hangup => exact (Makes.onHangup).fine
  | slowlink => exact (Makes.onSlowlink).fine

/-- No copy of a value overflows its buffer while a message is handled exactly if those that are
made fit, with the NUL that ends them; while the connection is closed, none is made. -/
theorem copies_fit_iff (rnd : Nat → Nat) (m : Msg) (s : St) :
    (∀ s', onRTCMessage rnd m s ≠ .error .overflow s') ↔
      (s.conn.mRTCConnected → ∀ k ∈ m.kind, Fit (copies s m k)) := by
  have hfine : (∀ s', onRTCMessage rnd m s ≠ .error .overflow s') ↔
      Fine (onRTCMessage rnd m) s := by
    unfold Fine
    cases onRTCMessage rnd m s <;> simp [Result.err]
  rw [hfine]
  by_cases hconn : s.conn.mRTCConnected
  · rw [Fine, onRTCMessage_eq hconn]
    cases m.kind with
    | none => simp [Result.err]
    | some k => exact (onKind_fine).trans (by simp [hconn])
  · rw [Fine, onRTCMessage_not hconn]
    exact iff_of_true nofun fun h => absurd h hconn

def leavingMsg (n : Nat) : Msg where
  valid := true
  fields := [(.janus, ascii "event"), (.leaving, List.replicate n 0x31)]
  nonul := by simp; decide

/-- The id of who leaves has fifty digits. -/
theorem leaving_overflows :
    (exec step .init [.opened fun _ => 0, .message (fun _ => 1) (leavingMsg 50)]).fault =
      some .overflow := by
  decide +kernel

end BareRTC.Signal
