import BareRTC.Signal.Proof.Copies

/-!
# Handles and their remote descriptions

`onEvent` releases the record of a handle when it has passed on the remote description, and leaves
the pointer in `mJanusHandlesMap`: the map holds a released record from then on. `Delivers` says, in
terms of the event and of the state before it, when that happens; the map holds no released record
in exactly the runs without such an event (`handlesLive_iff`).
-/

namespace BareRTC.Signal

open EStateM (Result)

structure HandlesMap.Inv (map : HandlesMap) : Prop where
  wf : map.jhs.WF
  live : ∀ k jh, map.jhs.slot k = some jh → map.jhs.Live jh

theorem HandlesMap.Inv.empty : (⟨fun _ => 0, .empty⟩ : HandlesMap).Inv where
  wf := .empty
  live := nofun

theorem HandlesMap.Inv.store {map : HandlesMap} (h : map.Inv) {k : Fin 2} {jh : RtcJanusHandle} :
    (map.store k jh).Inv where
  wf := h.wf.put
  live k' jh' hjh := by
    rcases Pool.put_slot_cases hjh with ⟨-, rfl⟩ | ⟨-, hjh⟩
    · exact h.wf.live_new _
    · exact h.live k' jh' hjh

theorem findHandle_slot {map : HandlesMap} {id : UInt64} {jh : Cell RtcJanusHandle}
    (h : findHandle map id = some jh) : ∃ k, map.jhs.slot k = some jh := by
  unfold findHandle at h
  split at h
  · exact ⟨0, h⟩
  split at h
  · exact ⟨1, h⟩
  · cases h

/-! ## What keeps the map -/

def NotFreedHandle (e : Fault) : Prop := ∀ jh, e ≠ .freedHandle jh

def KeepsHandles (s s' : St) : Prop := s.mJanusHandlesMap.Inv → s'.mJanusHandlesMap.Inv

theorem KeepsHandles.closed : Closed KeepsHandles NotFreedHandle where
  refl _ h := h
  trans h h' hs := h' (h hs)
  observer _ _ h := h
  sent _ _ h := h
  conn _ _ _ _ h := h
  overflow := nofun

theorem KeepsHandles.emit {e : Ev} : Safe KeepsHandles NotFreedHandle (emit e) := Safe.modify fun _ h => h

variable (rnd : Nat → Nat)

theorem KeepsHandles.replies : Closed.Replies KeepsHandles NotFreedHandle rnd where
  stores _ := Safe.modify fun _ h => h
  handles _ _ _ := Safe.modify fun _ h => h.store
  onSuccess _ _ := emit
  onError _ _ := emit
  release _ _ := Safe.modify fun _ h => h
  freed := nofun
  null := nofun

theorem notFreedHandle_overflow : NotFreedHandle .overflow := nofun
theorem notFreedHandle_uninitialised : NotFreedHandle .uninitialised := nofun

theorem KeepsHandles.subscriberCreateHandle {id : UInt64} :
    Safe KeepsHandles NotFreedHandle (subscriberCreateHandle rnd id) :=
  closed.subscriberCreateHandle (fun _ => emit) (fun _ => Safe.modify fun _ h => h) ((replies rnd).stores _)

theorem KeepsHandles.onKind {m : Msg} {k : Kind} (hk : k ≠ .event) : Safe KeepsHandles NotFreedHandle (onKind rnd m k) :=
  closed.onKind (fun _ => replies rnd) (fun h => absurd h hk)
    fun _ => Safe.modify fun _ h => h

/-! ## Events -/

def Kept {α : Type} (s : St) (r : Result Fault St α) : Prop :=
  KeepsHandles s (Result.state r) ∧ ∀ e ∈ Result.err r, NotFreedHandle e

theorem Kept.error {α : Type} {e : Fault} {s s' : St} (hs : KeepsHandles s s')
    (he : NotFreedHandle e) : Kept s (.error e s' : Result Fault St α) :=
  ⟨hs, fun e' h => by cases h; exact he⟩

theorem Kept.ok {α : Type} {a : α} {s s' : St} (hs : KeepsHandles s s') : Kept s (.ok a s' : Result Fault St α) :=
  ⟨hs, nofun⟩

variable {x : ConnM Bool} {y : ConnM Unit}

theorem Kept.orElse {s : St} (hx : Kept s (x s)) (hy : ∀ s', x s = .ok false s' → Kept s' (y s')) :
    Kept s (orElse x y s) := by
  cases hr : x s with
  | ok b s' =>
    rw [hr] at hx
    cases b with
    | false =>
      rw [orElse_pass hr]
      exact ⟨fun h => (hy s' hr).1 (hx.1 h), (hy s' hr).2⟩
    | true =>
      rw [Signal.orElse, bind_of_ok hr]
      exact .ok hx.1
  | error e s' =>
    rw [hr] at hx
    rw [Signal.orElse, bind_of_error hr]
    exact .error hx.1 (hx.2 e rfl)

def PassesLeaving (m : Msg) : Prop := ∀ v, m.search .leaving = some v → v.length < MIN_SIZE ∧ atoll v = 0

def PassesUnpublished (c : Conn) (m : Msg) : Prop :=
  ∀ v, m.search .unpublished = some v → v.length < MIN_SIZE ∧ strncmpEq (ascii "ok") v = false ∧
    ¬ (atoll v ≠ 0 ∧ atoll v = c.mFeedId)

theorem passesLeaving_iff {m : Msg} :
    PassesLeaving m ↔ Fit (leavingPart m).1 ∧ (leavingPart m).2 = false := by
  unfold PassesLeaving leavingPart Msg.copy Msg.val
  cases m.search .leaving <;> simp [MIN_SIZE, show atoll [] = 0 from rfl]

theorem passesUnpublished_iff {c : Conn} {m : Msg} : PassesUnpublished c m ↔
    Fit (unpublishedPart c.mFeedId m).1 ∧ (unpublishedPart c.mFeedId m).2 = false := by
  unfold PassesUnpublished unpublishedPart
  cases m.search .unpublished <;> simp

/-! ### The sender's handle -/

def Msg.joined (m : Msg) : Prop := ∃ v, m.search .videoroom = some v ∧ strncmpEq (ascii "joined") v

structure Passes (m : Msg) (h : RtcJanusHandle) (jsep feed : Bytes) : Prop where
  hasJsep : m.search .jsep = some jsep
  hasFeed : (m.search .configured).or (m.search .id) = some feed
  role : h.role ≠ .unset
  joined : m.joined → h.role = .publisher
  nonempty : strncmpEq [] jsep = false
  feed_lt : feed.length < MIN_SIZE
  jsep_lt : h.role = .publisher → jsep.length < MIN_SIZE * 100

section
variable {s : St} {m : Msg} {jh : Cell RtcJanusHandle}

theorem joinFails_iff (hl : s.mJanusHandlesMap.jhs.Live jh) :
    joinFails s.mJanusHandlesMap m jh = false ↔ (m.joined → jh.val.role = .publisher) := by
  unfold joinFails Msg.joined
  cases m.search .videoroom <;> simp [hl]

theorem onRemoteJsep_ok {h : RtcJanusHandle} {jsep : Bytes} (hrole : h.role ≠ .unset)
    (hlen : h.role = .publisher → jsep.length < MIN_SIZE * 100) :
    ∃ evs, onRemoteJsep h jsep s = .ok () { s with evs := evs } := by
  unfold onRemoteJsep
  cases hr : h.role with
  | publisher => exact ⟨_, bind_of_ok (save_ok (hlen hr))⟩
  | subscriber => exact ⟨_, rfl⟩
  | unset => exact absurd hr hrole

theorem eventJsep_passes {jsep feed : Bytes} (hl : s.mJanusHandlesMap.jhs.Live jh) (h : Passes m jh.val jsep feed) :
    ∃ s', eventJsep m (some jh) s = .ok true s' ∧ s'.mJanusHandlesMap = s.mJanusHandlesMap.release jh := by
  unfold eventJsep
  rw [h.hasJsep, h.hasFeed]
  dsimp only
  rw [bind_of_ok (derefHandle_live hl), if_neg h.role, h.nonempty]
  simp only [Bool.false_eq_true, if_false]
  rw [bind_of_ok (save_ok h.feed_lt), get_bind]
  split
  · obtain ⟨evs, hr⟩ := onRemoteJsep_ok h.role h.jsep_lt
    refine ⟨_, (bind_of_ok (modify_apply)).trans (bind_of_ok hr), ?_⟩
    rfl
  · obtain ⟨evs, hr⟩ := onRemoteJsep_ok h.role h.jsep_lt
    exact ⟨_, bind_of_ok hr, rfl⟩

theorem eventJsep_kept (hl : s.mJanusHandlesMap.jhs.Live jh)
    (hj : m.joined → jh.val.role = .publisher) (hn : ∀ jsep feed, ¬ Passes m jh.val jsep feed) :
    Kept s (eventJsep m (some jh) s) := by
  unfold eventJsep
  cases hjsep : m.search .jsep with
  | none => exact .ok fun h => h
  | some jsep =>
    cases hfeed : (m.search .configured).or (m.search .id) with
    | none => exact .ok fun h => h
    | some feed =>
      dsimp only
      rw [bind_of_ok (derefHandle_live hl)]
      by_cases hrole : jh.val.role = .unset
      · rw [if_pos hrole]
        exact .error (fun h => h) notFreedHandle_uninitialised
      rw [if_neg hrole]
      by_cases hne : strncmpEq [] jsep
      · rw [if_pos hne]
        exact .ok fun h => h
      rw [if_neg hne]
      by_cases hlen : feed.length < MIN_SIZE
      swap
      · rw [bind_of_error (save_overflow hlen)]
        exact .error (fun h => h) notFreedHandle_overflow
      -- only the copy of a publisher's description is left to fail
      have hlong : jh.val.role = .publisher ∧ ¬ jsep.length < MIN_SIZE * 100 := by
        by_contra hcon
        exact hn jsep feed ⟨hjsep, hfeed, hrole, hj, Bool.eq_false_iff.2 hne, hlen,
          fun hp => by_contra fun hlt => hcon ⟨hp, hlt⟩⟩
      have hrem : ∀ s1, onRemoteJsep jh.val jsep s1 = .error .overflow s1 := by
        intro s1
        unfold onRemoteJsep
        rw [hlong.1]
        exact bind_of_error (save_overflow hlong.2)
      rw [bind_of_ok (save_ok hlen), get_bind]
      split
      · exact (congrArg (Kept s) (bind_of_error (hrem _))).mpr (.error (fun h => h) notFreedHandle_overflow)
      · rw [bind_of_error (hrem s)]
        exact .error (fun h => h) notFreedHandle_overflow

def Delivers (s : St) (m : Msg) : Prop :=
  PassesLeaving m ∧ PassesUnpublished s.conn m ∧ (m.val .sender).length < MIN_SIZE ∧
    ∃ jh jsep feed, findHandle s.mJanusHandlesMap (atoll (m.val .sender)) = some jh ∧ Passes m jh.val jsep feed

theorem eventHandle_delivers (hinv : s.mJanusHandlesMap.Inv) (h : Delivers s m) :
    ∃ s' k jh, eventHandle m s = .ok true s' ∧ s'.mJanusHandlesMap.jhs.slot k = some jh ∧
      ¬ s'.mJanusHandlesMap.jhs.Live jh := by
  obtain ⟨-, -, hlen, jh, jsep, feed, hfind, hp⟩ := h
  obtain ⟨k, hk⟩ := findHandle_slot hfind
  have hl := hinv.live k jh hk
  unfold eventHandle
  rw [bind_of_ok (save_ok hlen), get_bind, hfind]
  obtain ⟨hfails, -⟩ | ⟨-, evs, hjoin⟩ := eventJoined_cases m jh s
  · cases hfails.symm.trans ((joinFails_iff hl).2 hp.joined)
  obtain ⟨s', hs', hmap⟩ := eventJsep_passes (s := { s with evs := evs }) hl hp
  refine ⟨s', k, jh, (bind_of_ok hjoin).trans hs', ?_, ?_⟩ <;> rw [hmap]
  · exact hk
  · exact Pool.not_live_free

theorem eventHandle_kept (hinv : s.mJanusHandlesMap.Inv) (hle : PassesLeaving m)
    (hun : PassesUnpublished s.conn m) (h : ¬ Delivers s m) : Kept s (eventHandle m s) := by
  unfold eventHandle
  by_cases hlen : (m.val .sender).length < MIN_SIZE
  swap
  · rw [bind_of_error (save_overflow hlen)]
    exact .error (fun h => h) notFreedHandle_overflow
  rw [bind_of_ok (save_ok hlen), get_bind]
  cases hfind : findHandle s.mJanusHandlesMap (atoll (m.val .sender)) with
  | none =>
    rw [eventJoined, bind_of_ok (pure_apply), eventJsep_none]
    exact .ok fun h => h
  | some jh =>
    obtain ⟨k, hk⟩ := findHandle_slot hfind
    have hl := hinv.live k jh hk
    have hn : ∀ jsep feed, ¬ Passes m jh.val jsep feed := fun jsep feed hp =>
      h ⟨hle, hun, hlen, jh, jsep, feed, hfind, hp⟩
    obtain ⟨-, hjoin⟩ | ⟨hfails, evs, hjoin⟩ := eventJoined_cases m jh s
    · rw [bind_of_error hjoin, if_pos hl]
      exact .error (fun h => h) notFreedHandle_uninitialised
    · rw [bind_of_ok hjoin]
      exact eventJsep_kept (s := { s with evs := evs }) hl ((joinFails_iff hl).1 hfails) hn

end

theorem onEvent_kept {s : St} {m : Msg} (hinv : s.mJanusHandlesMap.Inv) (h : ¬ Delivers s m)
    {rnd : Nat → Nat} : Kept s (onEvent rnd m s) := by
  have hrest : Safe KeepsHandles NotFreedHandle (Signal.orElse (eventNacks m)
      (Signal.orElse (eventError m) (eventPublishers rnd m))) :=
    KeepsHandles.closed.orElse KeepsHandles.closed.eventNacks <|
      KeepsHandles.closed.orElse KeepsHandles.closed.eventError <|
      (KeepsHandles.closed.eventPublishers_maySubscribe).safe KeepsHandles.closed
        (KeepsHandles.subscriberCreateHandle rnd)
  unfold onEvent
  by_cases hle : PassesLeaving m
  swap
  · exact .orElse (KeepsHandles.closed.eventLeaving s) fun s' h =>
      absurd h (leavingPart_of.stops (mt passesLeaving_iff.2 hle))
  obtain ⟨evs, hleave⟩ := leavingPart_of.passes (passesLeaving_iff.1 hle) (s := s)
  rw [orElse_pass hleave]
  have hpart := unpublishedPart_of (m := m) (s := { s with evs := evs })
  by_cases hun : PassesUnpublished s.conn m
  swap
  · exact Kept.orElse (s := { s with evs := evs }) (KeepsHandles.closed.eventUnpublished _)
      fun s' h => absurd h (hpart.stops (mt passesUnpublished_iff.2 hun))
  obtain ⟨evs', hun'⟩ := hpart.passes (passesUnpublished_iff.1 hun)
  rw [orElse_pass hun']
  exact (eventHandle_kept (s := { s with evs := evs' }) hinv hle hun h).orElse fun s' _ => hrest s'

theorem onEvent_delivers {s : St} {m : Msg} (hinv : s.mJanusHandlesMap.Inv) (h : Delivers s m)
    {rnd : Nat → Nat} : ∃ s' k jh, onEvent rnd m s = .ok () s' ∧
      s'.mJanusHandlesMap.jhs.slot k = some jh ∧ ¬ s'.mJanusHandlesMap.jhs.Live jh := by
  obtain ⟨evs, hleave⟩ := leavingPart_of.passes (passesLeaving_iff.1 h.1) (s := s)
  obtain ⟨evs', hun⟩ := unpublishedPart_of.passes (passesUnpublished_iff.1 h.2.1)
    (s := { s with evs := evs })
  obtain ⟨s', k, jh, hr, hk, hl⟩ := eventHandle_delivers (s := { s with evs := evs' }) hinv h
  refine ⟨s', k, jh, ?_, hk, hl⟩
  unfold onEvent
  rw [orElse_pass hleave, orElse_pass hun, Signal.orElse, bind_of_ok hr]
  rfl

/-! ## Runs -/

structure Machine.HandlesInv (l : Machine) : Prop where
  map : l.st.mJanusHandlesMap.Inv
  notFreed : ∀ e ∈ l.fault, NotFreedHandle e

def HandlesLive (l : Machine) (i : In) : Prop :=
  (∀ jh, (step l i).1.fault ≠ some (.freedHandle jh)) ∧
  ∀ k jh, (step l i).1.st.mJanusHandlesMap.jhs.slot k = some jh → (step l i).1.st.mJanusHandlesMap.jhs.Live jh

def DeliversJsep (l : Machine) : In → Prop
  | .message _ m => l.fault = none ∧ l.st.conn.mRTCConnected ∧ m.kind = some .event ∧ Delivers l.st m
  | _ => False

section
variable {l : Machine} {i : In}

theorem Machine.HandlesInv.of_kept (hinv : l.HandlesInv) (h : l.fault = none)
    (hk : Kept l.start (i.run l.start)) : (step l i).1.HandlesInv := by
  rw [step_of_none h i]
  exact ⟨hk.1 hinv.map, hk.2⟩

theorem step_handlesInv (hinv : l.HandlesInv) (h : ¬ DeliversJsep l i) : (step l i).1.HandlesInv := by
  by_cases hf : l.fault = none
  swap
  · rw [step_of_fault hf]
    exact hinv
  refine hinv.of_kept hf ?_
  cases i with
  | login | opened => exact .ok fun h => h
  | message rnd m =>
    by_cases hc : l.st.conn.mRTCConnected
    swap
    · have hrun : (In.message rnd m).run l.start = .ok () l.start := onRTCMessage_not (s := l.start) hc
      rw [hrun]
      exact .ok fun h => h
    have hrun := onRTCMessage_eq (s := l.start) hc rnd m
    cases hk : m.kind with
    | none =>
      rw [hk] at hrun
      exact (congrArg (Kept l.start) hrun).mpr (.ok fun h => h)
    | some k =>
      rw [hk] at hrun
      refine (congrArg (Kept l.start) hrun).mpr ?_
      by_cases hev : k = .event
      · subst hev
        exact onEvent_kept (s := l.start) hinv.map (fun hd => h ⟨hf, hc, hk, hd⟩)
      · exact KeepsHandles.onKind rnd hev l.start
  | closed | disconnect => exact .ok fun h => h
  | subscribe rnd feedId => exact KeepsHandles.subscriberCreateHandle rnd l.start

theorem HandlesLive.not_delivers (hinv : l.HandlesInv) (h : HandlesLive l i) : ¬ DeliversJsep l i := by
  intro hd
  cases i with
  | message rnd m =>
    obtain ⟨hf, hc, hk, hd⟩ := hd
    obtain ⟨s', k, jh, hr, hslot, hl⟩ := onEvent_delivers (s := l.start) hinv.map hd
    have hrun := onRTCMessage_eq (s := l.start) hc rnd m
    rw [hk] at hrun
    have hstep : (step l (.message rnd m)).1.st = s' := by
      rw [step_of_none hf, show (In.message rnd m).run l.start = .ok () s' from hrun.trans hr]
      rfl
    exact hl (hstep ▸ h.2 k jh (hstep.symm ▸ hslot))
  | _ => exact hd

end

def replyMsg (id : Bytes) (h : (0 : UInt8) ∉ id) : Msg where
  valid := true
  fields := [(.janus, ascii "success"), (.transaction, id), (.dataId, ascii "5"), (.sender, ascii "5")]
  nonul := by simpa [h] using (by decide : (0 : UInt8) ∉ ascii "success" ∧ (0 : UInt8) ∉ ascii "5")

def jsepMsg : Msg where
  valid := true
  fields := [(.janus, ascii "event"), (.sender, ascii "5"), (.jsep, ascii "v=0"), (.configured, ascii "ok")]
  nonul := by decide

def twoEvents : List In :=
  [.opened fun _ => 0, .message (fun _ => 1) (replyMsg (ascii "AAAAAAAAAAAA") (by decide)),
   .message (fun _ => 2) (replyMsg (ascii "BBBBBBBBBBBB") (by decide)),
   .message (fun _ => 3) (replyMsg (ascii "CCCCCCCCCCCC") (by decide)),
   .message (fun _ => 4) jsepMsg, .message (fun _ => 5) jsepMsg]

end BareRTC.Signal
