import BareRTC.Dns.Proof.Heap

/-!
# The DNS client: handlers are called once (`re/src/dns/client.c`)

`query_handler` takes a query out of the table only after its handler has returned, and forgets the
handler only then. What the handler does with the client in between finds the query as if it had not
been called. A handler that destroys the client is called again, by `query_close_handler`
(`handler_called_twice`).

`Calm` is what an application has to keep to: in a handler it does not destroy the client, it does
not free a query that a function on the stack goes on with, and no send on an open TCP connection
fails at once; nor does it start queries while the client is being destroyed. Then every frame on
the stack refers to what is there (`Sound`), the stack has one of a few shapes (`Shape`), and every
handler is called at most once (`handlers_called_once`).
-/

namespace BareRTC.Dns

open List

open Sdp (Sa)

/-! ## Shapes of the stack -/

inductive Walking : List Frame → Prop
  | loop (tc : Nat) (le : Option Nat) (err : Option Errno) : Walking [.failWalk tc le err]
  | query (tc : Nat) (le : Option Nat) (err : Option Errno) (q : Nat) (qp : Bool) (err' : Option Errno) :
      Walking [.failWalk tc le err, .sendTcp q (.query qp) err']
  | fail (tc : Nat) (le : Option Nat) (err : Option Errno) (q : Nat) (err' : Option Errno) {st : List Frame}
      (h : Walking st) : Walking (.failWalk tc le err :: .sendTcp q .fail err' :: st)

inductive Called : List Frame → Prop
  | loop : Called []
  | recv (tc : Nat) (err : Option Errno) (mbrx : Bytes) : Called [.tcpRecv tc err mbrx]
  | close (i : Nat) (le : Option Nat) : Called [.closeWalk i le]
  | walk {st : List Frame} (h : Walking st) : Called st

/-- What can be below `send_tcp` -/
inductive Sending : Caller → List Frame → Prop
  | fail {st : List Frame} (h : Walking st) : Sending .fail st
  | query (qp : Bool) : Sending (.query qp) []
  | within (qp : Bool) (q : Nat) {st : List Frame} (h : Called st) (hclose : ∀ i le, .closeWalk i le ∉ st) :
      Sending (.query qp) (.handler q :: st)

inductive Shape : List Frame → Prop
  | called {st : List Frame} (h : Called st) : Shape st
  | handler (q : Nat) {st : List Frame} (h : Called st) : Shape (.handler q :: st)
  | sending (q : Nat) (caller : Caller) (err : Option Errno) {st : List Frame} (h : Sending caller st) :
      Shape (.sendTcp q caller err :: st)

variable {st : List Frame}

theorem Walking.closing (h : Walking st) : ∀ f ∈ st, f.Closing := by
  induction h with
  | loop => exact forall_mem_singleton.2 trivial
  | query => exact forall_mem_cons.2 ⟨trivial, forall_mem_singleton.2 trivial⟩
  | fail _ _ _ _ _ _ ih => exact forall_mem_cons.2 ⟨trivial, forall_mem_cons.2 ⟨trivial, ih⟩⟩

variable {f : Frame}

theorem Walking.tail (h : Walking (f :: st)) :
    Shape st ∧ (∃ tc le err, f = .failWalk tc le err) ∧ ∀ tc le err, Walking (.failWalk tc le err :: st) := by
  cases h with
  | loop tc le err => exact ⟨.called .loop, ⟨tc, le, err, rfl⟩, .loop⟩
  | query tc le err q qp err' =>
    exact ⟨.sending q _ err' (.query qp), ⟨tc, le, err, rfl⟩, fun tc le err => .query tc le err q qp err'⟩
  | fail tc le err q err' h =>
    exact ⟨.sending q _ err' (.fail h), ⟨tc, le, err, rfl⟩, fun tc le err => .fail tc le err q err' h⟩

theorem Called.no_handler (h : Called st) (q : Nat) : .handler q ∉ st := by
  cases h with
  | loop => exact not_mem_nil
  | recv | close => exact fun hmem => by cases mem_singleton.1 hmem
  | walk h => exact h.closing _

theorem Called.of_eq (h : st = []) : Called st := h ▸ .loop

theorem no_close_cons (hf : ∀ i le, f ≠ .closeWalk i le) (h : ∀ i le, .closeWalk i le ∉ st) (i : Nat)
    (le : Option Nat) : .closeWalk i le ∉ f :: st :=
  not_mem_cons_of_ne_of_not_mem (hf i le).symm (h i le)

variable {caller : Caller}

theorem Sending.no_close (h : Sending caller st) (i : Nat) (le : Option Nat) : .closeWalk i le ∉ st := by
  cases h with
  | fail h => exact h.closing _
  | query => exact not_mem_nil
  | within qp q h hclose => exact no_close_cons (by simp) hclose i le

theorem Sending.walking (h : Sending caller st) (hno : ∀ p, .handler p ∉ st)
    (q tc : Nat) (le : Option Nat) (err err' : Option Errno) :
    Walking (.failWalk tc le err :: .sendTcp q caller err' :: st) := by
  cases h with
  | fail h => exact .fail tc le err q err' h
  | query qp => exact .query tc le err q qp err'
  | within qp p => exact absurd mem_cons_self (hno p)

theorem Sending.shape (h : Sending caller st) : Shape st := by
  cases h with
  | fail h => exact .called (.walk h)
  | query => exact .called .loop
  | within qp q h => exact .handler q h

/-! ## Steps -/

section
variable (cfg : Conf)

def CloseOk (s : Dnsc) : Prop :=
  ∀ i le, .closeWalk i le ∈ s.stack →
    (∀ j < i, s.bucketl cfg j = []) ∧ ((s.bucketl cfg i).filter fun q => .handler q ∉ s.stack).head? = le

structure Good (s : Dnsc) : Prop where
  sound : Sound s
  shape : Shape s.stack
  close : CloseOk cfg s
  dead : s.dead → s.queries = [] ∧ s.tcs = [] ∧ s.stack = []

def Out.query : Out → Nat
  | .qh q _ => q
  | .freed q => q

structure Moves (s : Dnsc) (r : Dnsc × List Out) : Prop where
  good : Good cfg r.1
  next : s.next ≤ r.1.next
  live : ∀ q ∈ r.1.live, q ∈ s.live ∨ s.next ≤ q
  handlers : ∀ q, .handler q ∈ s.stack → .handler q ∈ r.1.stack ∨ q ∉ r.1.live
  one : r.2.length ≤ 1
  out : ∀ o ∈ r.2, o.query ∈ s.live ∧ .handler o.query ∉ s.stack ∧ (.handler o.query ∈ r.1.stack ∨ o.query ∉ r.1.live)

structure Reaches (s m : Dnsc) : Prop where
  next : s.next ≤ m.next
  live : ∀ q ∈ m.live, q ∈ s.live ∨ s.next ≤ q
  handlers : ∀ q, .handler q ∈ s.stack → .handler q ∈ m.stack

structure Mid (s m : Dnsc) : Prop extends Reaches s m where
  sound : Sound m
  alive : m.dead = false
  noClose : ∀ i le, .closeWalk i le ∉ m.stack

structure Same (m m' : Dnsc) : Prop where
  sound : Sound m'
  stack : m'.stack = m.stack
  live : m'.live = m.live
  next : m.next ≤ m'.next
  dead : m'.dead = m.dead

variable {cfg}

theorem Reaches.refl {s : Dnsc} : Reaches s s := ⟨Nat.le_refl _, fun _ h => .inl h, fun _ h => h⟩

variable {s m m' : Dnsc}

theorem Reaches.push (h : Reaches s m) : Reaches s (m.push f) :=
  ⟨h.next, h.live, fun q hq => mem_cons_of_mem _ (h.handlers q hq)⟩

theorem Reaches.setQuery (h : Reaches s m) {x : Query} : Reaches s (m.setQuery x) :=
  ⟨h.next, by rw [live_setQuery]; exact h.live, h.handlers⟩

theorem Reaches.drop (h : Reaches s m) {q : Nat} : Reaches s (m.drop q) :=
  ⟨h.next, fun p hp => h.live p (mem_live_drop.1 hp).1, h.handlers⟩

theorem Reaches.quiet (h : Reaches s m) (hgood : Good cfg m) : Moves cfg s (m, []) :=
  ⟨hgood, h.next, h.live, fun q hq => .inl (h.handlers q hq), Nat.zero_le _, nofun⟩

theorem Good.stay (h : Good cfg s) : Moves cfg s (s, []) := (Reaches.refl).quiet h

theorem Sound.good (h : Sound s) (hshape : Shape s.stack) (hclose : ∀ i le, .closeWalk i le ∉ s.stack)
    (hdead : s.dead = false) : Good cfg s :=
  ⟨h, hshape, fun i le hmem => absurd hmem (hclose i le), by simp [hdead]⟩

variable {x : Query} {q : Nat} {t : Tcpconn}

namespace Mid

variable (h : Mid s m)
include h

theorem same (hsame : Same m m') : Mid s m' :=
  ⟨⟨h.next.trans hsame.next, by rw [hsame.live]; exact h.live, by rw [hsame.stack]; exact h.handlers⟩, hsame.sound,
    hsame.dead.trans h.alive, by rw [hsame.stack]; exact h.noClose⟩

theorem setQuery (hqp : .handler x.adr ∈ m.stack → x.qp = false) : Mid s (m.setQuery x) :=
  h.same ⟨h.sound.setQuery hqp, rfl, live_setQuery m, Nat.le_refl _, rfl⟩

theorem drop (hpin : q ∉ pins m.stack) : Mid s (m.drop q) := ⟨h.toReaches.drop, h.sound.drop hpin, h.alive, h.noClose⟩

theorem push {tcs : List Tcpconn} (hs : Sound { m with tcs, stack := f :: m.stack })
    (hf : ∀ i le, f ≠ .closeWalk i le) : Mid s { m with tcs, stack := f :: m.stack } :=
  ⟨⟨h.next, h.live, fun q hq => mem_cons_of_mem _ (h.handlers q hq)⟩, hs, h.alive, no_close_cons hf h.noClose⟩

theorem quiet (hshape : Shape m.stack) : Moves cfg s (m, []) :=
  h.toReaches.quiet (h.sound.good hshape h.noClose h.alive)

end Mid

theorem queryHandler_spec (h : Sound m) (hx : x.adr ∈ m.live) (hpin : x.adr ∉ pins m.stack) {err : Option Errno} :
    Sound (queryHandler m x err).1 ∧
      (queryHandler m x err = ((m.setQuery { x with qp := false }).push (.handler x.adr), [.qh x.adr err]) ∨
        queryHandler m x err = (m.drop x.adr, [])) := by
  unfold queryHandler
  by_cases hqh : x.qh
  · rw [if_pos hqh]
    have hset : Sound (m.setQuery { x with qp := false }) := h.setQuery fun _ => rfl
    obtain ⟨y, hy, hadr⟩ := mem_map.1 hx
    have hframe : FrameOk (m.setQuery { x with qp := false }) (.handler x.adr) :=
      ⟨{ x with qp := false }, mem_map.2 ⟨y, hy, if_pos hadr⟩, rfl, rfl⟩
    exact ⟨hset.push hframe (forall_mem_singleton.2 hpin) (nodup_singleton _) nofun, .inl rfl⟩
  · rw [if_neg hqh]
    exact ⟨h.drop hpin, .inr rfl⟩

theorem Mid.call (h : Mid s m) (hcalled : Called m.stack) (hx : x.adr ∈ m.live) (hlive : x.adr ∈ s.live)
    (hpin : x.adr ∉ pins m.stack) (err : Option Errno) : Moves cfg s (queryHandler m x err) := by
  have hno : ∀ q, .handler q ∉ s.stack := fun q hq => hcalled.no_handler q (h.handlers q hq)
  obtain ⟨hsound, heq | heq⟩ := queryHandler_spec h.sound hx hpin
  · rw [heq] at hsound ⊢
    have hgood : Good cfg _ := hsound.good (.handler _ hcalled) (no_close_cons (by simp) h.noClose) h.alive
    exact ⟨hgood, h.next, (h.toReaches.setQuery).live, fun q hq => absurd hq (hno q), Nat.le_refl 1,
      forall_mem_singleton.2 ⟨hlive, hno _, .inl mem_cons_self⟩⟩
  · rw [heq]
    exact (h.drop hpin).quiet (.called hcalled)

theorem Good.alive (h : Good cfg s) (hne : s.stack ≠ []) : s.dead = false := by
  cases hdead : s.dead with
  | false => rfl
  | true => exact absurd (h.dead hdead).2.2 hne

theorem Good.top (h : Good cfg s) (hst : s.stack = f :: st) :
    s.pop.stack = st ∧ Sound s.pop ∧ FrameOk s.pop f ∧ (∀ q ∈ f.pins, q ∉ pins st) ∧ s.dead = false := by
  have hpins := h.sound.pins
  have hframe := h.sound.frames f (by rw [hst]; exact mem_cons_self)
  rw [hst] at hpins
  refine ⟨by rw [Dnsc.pop, hst]; rfl, h.sound.pop, ?_, (nodup_append'.1 hpins).2.2, h.alive (by simp [hst])⟩
  cases f <;> exact hframe

theorem reaches_pop (hst : s.stack = f :: st) (hf : ∀ q, f ≠ .handler q) : Reaches s s.pop := by
  refine ⟨Nat.le_refl _, fun _ hq => .inl hq, fun q hq => ?_⟩
  rw [hst] at hq
  rw [Dnsc.pop, hst]
  exact (mem_cons.1 hq).resolve_left fun heq => hf q heq.symm

theorem Good.popped (h : Good cfg s) (hst : s.stack = f :: st) (hf : ∀ q, f ≠ .handler q)
    (hclose : ∀ i le, .closeWalk i le ∉ s.pop.stack) : Mid s s.pop :=
  ⟨reaches_pop hst hf, h.sound.pop, h.alive (by simp [hst]), hclose⟩

theorem not_handler_of_not_pinned (hpin : q ∉ pins st) : .handler q ∉ st :=
  fun hmem => hpin (mem_flatMap.2 ⟨_, hmem, mem_singleton.2 rfl⟩)

theorem Sound.pushSend (h : Sound m) (hlive : q ∈ m.live) (hfree : ∀ t ∈ m.tcs, q ∉ t.ql)
    (hpin : q ∉ Dns.pins m.stack) (caller : Caller) (err : Option Errno) : Sound (m.push (.sendTcp q caller err)) :=
  h.push ⟨hlive, hfree⟩ (forall_mem_singleton.2 hpin) (nodup_singleton q) nofun

variable {err : Option Errno} {le : Option Nat}

theorem failStep_moves (h : Good cfg s) {tc : Nat}
    (hst : s.stack = .failWalk tc le err :: st) (hw : Walking s.stack) (env : Env) :
    Moves cfg s (failStep s.pop env tc le err) := by
  obtain ⟨rfl, hsound, hframe, hpins, -⟩ := h.top hst
  have hfails := h.sound.fails
  rw [hst] at hw hfails
  obtain ⟨hshape, -, hwalk⟩ := hw.tail
  have hclosing := (forall_mem_cons.1 hw.closing).2
  have hmid := h.popped hst (by simp) fun _ _ => hclosing _
  obtain ⟨t, ht, rfl, hconn, rfl⟩ := hframe
  have hfail : t.adr ∉ failTcs s.pop.stack := (nodup_cons.1 hfails).1
  unfold failStep
  rw [hsound.heap.tc?_eq ht]
  cases hhead : t.ql.head? with
  | none =>
    have hend := hsound.endClose (head?_eq_none_iff.1 hhead) hclosing hfail
    simp only [hsound.heap.ref t ht, if_true]
    exact (hmid.same ⟨hend, rfl, rfl, Nat.le_refl _, rfl⟩).quiet hshape
  | some q =>
    have hlive := hsound.heap.qlLive t ht q (mem_of_mem_head? hhead)
    obtain ⟨x, hx⟩ := query?_of_live hlive
    obtain ⟨-, rfl⟩ := query?_some hx
    have hwalk' := hwalk t.adr (nextOf t.ql x.adr) err
    have hnext := hsound.failNext hclosing ht hconn hfail hhead err
    have hmid' := hmid.push hnext (by simp)
    -- the query that comes next is another one
    have hpin : x.adr ∉ pins (.failWalk t.adr (nextOf t.ql x.adr) err :: s.pop.stack) := by
      obtain ⟨l, hl⟩ := head?_eq_some_iff.1 hhead
      have hnodup := hsound.heap.ql t ht
      rw [hl] at hnodup
      intro hmem
      rcases mem_append.1 hmem with hmem | hmem
      · rw [hl, Sound.nextOf_head] at hmem
        exact (nodup_cons.1 hnodup).1 (mem_of_mem_head? (Option.mem_toList.1 hmem))
      · exact hpins x.adr (by rw [Frame.pins, hhead]; exact mem_singleton_self _) hmem
    simp only [hx]
    split
    · exact hmid'.call (.walk hwalk') hlive hlive hpin _
    have hfree : ∀ t' ∈ (s.pop.leave x.adr).tcs, x.adr ∉ t'.ql := by
      rw [leave_eq hsound.heap]
      refine forall_mem_map.2 fun t' _ hmem => ?_
      exact absurd (mem_filter.1 hmem).2 (by simp)
    have hpushed := hnext.pushSend hlive hfree hpin .fail none
    exact (hmid'.push hpushed (by simp)).quiet (.sending _ _ _ (.fail hwalk'))

theorem sendReturned_moves (h : Mid s m) (hs : Sending caller m.stack) (hx : x.adr ∈ m.live) (hlive : x.adr ∈ s.live)
    (hpin : x.adr ∉ pins m.stack) : Moves cfg s (sendReturned m x caller err) := by
  unfold sendReturned
  cases caller with
  | fail =>
    cases err with
    | none => exact h.quiet hs.shape
    | some err =>
      have hwalk : Walking m.stack := by
        cases hs with
        | fail h => exact h
      exact h.call (.walk hwalk) hx hlive hpin _
  | query qp =>
    cases err with
    | some err => exact (h.drop hpin).quiet hs.shape
    | none =>
      have hset : Mid s (m.setQuery { x with tmr := some .tcp, qp }) :=
        h.setQuery fun hmem => absurd hmem (not_handler_of_not_pinned hpin)
      exact hset.quiet hs.shape

theorem sendStep_moves (h : Good cfg s)
    (hst : s.stack = .sendTcp q caller err :: st) (hs : Sending caller st) {env : Env}
    (hcalm : ∀ p, .handler p ∈ s.stack → env.send = none) : Moves cfg s (sendStep s.pop env q caller err) := by
  obtain ⟨rfl, hsound, ⟨hlive, hfree⟩, hpins, -⟩ := h.top hst
  have hpin : q ∉ pins s.pop.stack := hpins q (mem_singleton_self q)
  have hmid := h.popped hst (by simp) hs.no_close
  obtain ⟨x, hx⟩ := query?_of_live hlive
  obtain ⟨-, rfl⟩ := query?_some hx
  unfold sendStep
  simp only [hx]
  cases hsrv : env.srvv[x.ntx]? with
  | none => exact sendReturned_moves hmid hs hlive hlive hpin
  | some srv =>
    dsimp only
    have hset : Mid s (s.pop.setQuery { x with ntx := x.ntx + 1 }) :=
      hmid.setQuery fun hmem => absurd hmem (not_handler_of_not_pinned hpin)
    have hlive' : x.adr ∈ (s.pop.setQuery { x with ntx := x.ntx + 1 }).live := by rwa [live_setQuery]
    have hsend := hset.sound.pushSend hlive' hfree hpin caller
    split
    · next t hfind =>
      have ht := mem_of_find?_eq_some hfind
      have hconn : t.conn := by
        have hcond := find?_some hfind
        simp only [decide_eq_true_eq] at hcond
        exact hcond.1
      have hjoin := hset.same ⟨hset.sound.join ht hconn hlive' hfree hpin, rfl, rfl, Nat.le_refl _, rfl⟩
      split
      · cases hsent : env.send with
        | none => exact sendReturned_moves (x := { x with ntx := x.ntx + 1 }) hjoin hs hlive' hlive hpin
        | some err' =>
          have hno : ∀ p, .handler p ∉ s.pop.stack := by
            intro p hp
            have hnone := hcalm p (by rw [hst]; exact mem_cons_of_mem _ hp)
            rw [hsent] at hnone
            cases hnone
          have hwalk := fun tc le err => hs.walking hno x.adr tc le err (some err')
          have hclosing := (forall_mem_cons.1 (hwalk 0 none none).closing).2
          have hclose := (hsend (some err')).close hclosing ht ((hsend (some err')).not_failing ht hconn) (some err')
          have hmid' := hset.push (hsend (some err')) (by simp)
          exact (hmid'.push hclose (by simp)).quiet (.called (.walk (hwalk _ _ _)))
      · exact sendReturned_moves (x := { x with ntx := x.ntx + 1 }) hjoin hs hlive' hlive hpin
    · cases env.alloc with
      | none =>
        have hadd := hset.same ⟨hset.sound.addTc srv hlive' hfree hpin, rfl, rfl, Nat.le_succ _, rfl⟩
        exact sendReturned_moves (x := { x with ntx := x.ntx + 1 }) hadd hs hlive' hlive hpin
      | some err' =>
        exact (hset.push (hsend (some err')) (by simp)).quiet (.sending _ caller _ hs)

/-! ### Replies -/

theorem Sound.same_setQuery (h : Sound m) (hno : ∀ q, .handler q ∉ m.stack) (x : Query) : Same m (m.setQuery x) :=
  ⟨h.setQuery fun hmem => absurd hmem (hno _), rfl, live_setQuery m, Nat.le_refl _, rfl⟩

theorem replyRecv_spec (h : Sound m) (hno : ∀ q, .handler q ∉ m.stack) (srvc : Nat) (mb : Mbuf) :
    Same m (replyRecv cfg m srvc mb).2.1 ∧ (replyRecv cfg m srvc mb).2.1.tcs = m.tcs ∧
      ∀ x err, (replyRecv cfg m srvc mb).2.2 = some (x, err) → x.adr ∈ m.live := by
  have hsame : Same m m := ⟨h, rfl, rfl, Nat.le_refl _, rfl⟩
  have hnone : ∀ (x : Query) (err : Option Errno), (none : Option (Query × Option Errno)) = some (x, err) →
      x.adr ∈ m.live := nofun
  unfold replyRecv
  cases questionDecode mb with
  | error err mb => exact ⟨hsame, rfl, hnone⟩
  | ok dq mb =>
    dsimp only
    split
    · exact ⟨hsame, rfl, hnone⟩
    rename_i x hfind
    have hlive : x.adr ∈ m.live := mem_map_of_mem (mem_of_find?_eq_some hfind)
    split
    · split
      · exact ⟨hsame, rfl, hnone⟩
      · exact ⟨h.same_setQuery hno _, rfl, hnone⟩
    split
    · refine ⟨hsame, rfl, fun y err heq => ?_⟩
      cases heq
      exact hlive
    have hset := h.same_setQuery hno
    split
    · exact ⟨hset _, rfl, hnone⟩
    refine ⟨hset _, rfl, fun y err heq => ?_⟩
    cases heq
    exact hlive

theorem Mid.reply (h : Mid s m) (hcalled : Called m.stack) (hpins : pins m.stack = []) (hlive : m.live = s.live)
    {call : Option (Query × Option Errno)} (hcall : ∀ x err, call = some (x, err) → x.adr ∈ m.live) :
    Moves cfg s (callHandler m call) := by
  cases call with
  | none => exact h.quiet (.called hcalled)
  | some c =>
    obtain ⟨x, err⟩ := c
    have hx := hcall x err rfl
    exact h.call hcalled hx (hlive ▸ hx) (by rw [hpins]; exact not_mem_nil) err

theorem Mid.close (h : Mid s m) (hst : m.stack = []) (ht : t ∈ m.tcs) :
    Moves cfg s (tcpconnClose m t err, []) := by
  have hclose := h.sound.close (by rw [hst]; exact forall_mem_nil _) ht (by rw [hst]; exact not_mem_nil) err
  refine (h.push hclose (by simp)).quiet ?_
  show Shape (.failWalk t.adr t.ql.head? err :: m.stack)
  rw [hst]
  exact .called (.walk (.loop _ _ _))

theorem tcpNext_moves (h : Mid s m) (hst : m.stack = []) (hlive : m.live = s.live) (ht : t ∈ m.tcs)
    (hconn : t.conn) (env : Env) {mbrx : Bytes} : Moves cfg s (tcpNext cfg m env t mbrx) := by
  -- the connection only gets other data
  have hset : ∀ t' : Tcpconn, t'.adr = t.adr → t'.ref = t.ref → t'.ql = t.ql → t'.conn = t.conn →
      Mid s (m.setTc t') ∧ t' ∈ (m.setTc t').tcs := fun t' hadr href hql hc =>
    ⟨h.same ⟨h.sound.setTc ht hadr href hql hc, rfl, rfl, Nat.le_refl _, rfl⟩, mem_map.2 ⟨t, ht, if_pos hadr.symm⟩⟩
  have hshape : Shape m.stack := .called (.of_eq hst)
  unfold tcpNext
  dsimp only
  generalize (if t.flen = 0 then min (2 - t.mb.length) mbrx.length else 0) = n
  split
  · exact h.close hst ht
  split
  · exact (hset { t with mb := t.mb ++ mbrx.take n } rfl rfl rfl rfl).1.quiet hshape
  generalize ht1 : (if t.flen = 0 then { t with flen := beNat (t.mb ++ mbrx.take n), mb := [] } else t) = t1
  obtain ⟨hadr, href, hql, hc⟩ : t1.adr = t.adr ∧ t1.ref = t.ref ∧ t1.ql = t.ql ∧ t1.conn = t.conn := by
    rw [← ht1]
    split <;> exact ⟨rfl, rfl, rfl, rfl⟩
  generalize min (t1.flen - t1.mb.length) (mbrx.drop n).length = k
  generalize t1.mb ++ (mbrx.drop n).take k = mb
  generalize (mbrx.drop n).drop k = rest
  split
  · obtain ⟨hmid, hmem⟩ := hset t1 hadr href hql hc
    exact hmid.close hst hmem
  obtain ⟨hmid, hmem⟩ := hset { t1 with mb } hadr href hql hc
  split
  · exact hmid.quiet hshape
  have hno : ∀ q, .handler q ∉ m.stack := fun q => eq_nil_iff_forall_not_mem.1 hst _
  obtain ⟨hsame, htcs, hcall⟩ := @replyRecv_spec cfg _ hmid.sound hno env.srvv.length ⟨mb, 0, mb.length⟩
  generalize replyRecv cfg (m.setTc { t1 with mb }) env.srvv.length ⟨mb, 0, mb.length⟩ = r at hsame htcs hcall ⊢
  have hframe : FrameOk r.2.1 (.tcpRecv t1.adr r.1 rest) :=
    ⟨{ t1 with mb }, by rw [htcs]; exact hmem, rfl, hc.trans hconn⟩
  have hpushed := hsame.sound.push hframe nofun nodup_nil nofun
  have hnil : r.2.1.stack = [] := hsame.stack.trans hst
  refine ((hmid.same hsame).push hpushed (by simp)).reply ?_ ?_ (hsame.live.trans hlive)
    fun x err heq => hsame.live ▸ hcall x err heq
  · dsimp only
    rw [hnil]
    exact .recv _ _ _
  · dsimp only
    rw [hnil]
    rfl

theorem recvStep_moves (h : Good cfg s) {tc : Nat} {mbrx : Bytes}
    (hst : s.stack = [.tcpRecv tc err mbrx]) (env : Env) : Moves cfg s (recvStep cfg s.pop env tc err mbrx) := by
  obtain ⟨hpop, hsound, ⟨t, ht, rfl, hconn⟩, -, -⟩ := h.top hst
  have hmid := h.popped hst (by simp) (by rw [hpop]; exact fun _ _ => not_mem_nil)
  unfold recvStep
  rw [hsound.heap.tc?_eq ht]
  cases err with
  | some err => exact hmid.close hpop ht
  | none =>
    have hset : Mid s (s.pop.setTc { t with flen := 0, mb := [] }) :=
      hmid.same ⟨hsound.setTc ht rfl rfl rfl rfl, rfl, rfl, Nat.le_refl _, rfl⟩
    dsimp only
    split
    · exact hset.quiet (.called (.of_eq hpop))
    · exact tcpNext_moves hset hpop rfl (mem_map.2 ⟨t, ht, if_pos rfl⟩) hconn env

/-! ### The end of a client -/

theorem bucketl_drop (i : Nat) : (s.drop q).bucketl cfg i = (s.bucketl cfg i).filter (· ≠ q) := by
  show ((s.queries.filter (·.adr ≠ q)).filter _).map Query.adr = _
  rw [Dnsc.bucketl, filter_map, filter_comm]
  rfl

theorem bucketl_setQuery (h : Heap s) {y : Query} (hx : x ∈ s.queries) (hadr : y.adr = x.adr)
    (hname : y.name = x.name) (i : Nat) : (s.setQuery y).bucketl cfg i = s.bucketl cfg i := by
  have hsame : ∀ z ∈ s.queries,
      (if z.adr = y.adr then y else z).name = z.name ∧ (if z.adr = y.adr then y else z).adr = z.adr := by
    intro z hz
    split
    · next heq =>
      obtain rfl := h.query_unique hz hx (heq.trans hadr)
      exact ⟨hname, hadr⟩
    · exact ⟨rfl, rfl⟩
  unfold Dnsc.bucketl Dnsc.setQuery
  rw [filter_map, map_map]
  refine (map_congr_left fun z hz => (hsame z (mem_of_mem_filter hz)).2).trans (congrArg _ (filter_congr fun z hz => ?_))
  exact congrArg (fun n => decide (bucket cfg n = i)) (hsame z hz).1

variable {i : Nat} {l : List Nat}

theorem mem_live_of_bucketl (h : q ∈ s.bucketl cfg i) : q ∈ s.live := by
  obtain ⟨x, hx, rfl⟩ := mem_map.1 h
  exact mem_map_of_mem (mem_of_mem_filter hx)

theorem nodup_bucketl (h : Heap s) (i : Nat) : (s.bucketl cfg i).Nodup := h.adrs.sublist (filter_sublist.map _)

theorem filter_no_handler {st l : List _} (h : ∀ q, Frame.handler q ∉ st) :
    (l.filter fun q => Frame.handler q ∉ st) = l :=
  filter_eq_self.2 fun q _ => by simpa using h q

theorem Sound.goodWalk (h : Sound m) (i : Nat) (le : Option Nat) (hshape : Shape m.stack)
    (hdead : m.dead = false) (hwalk : ∀ j le', .closeWalk j le' ∈ m.stack → j = i ∧ le' = le)
    (hbefore : ∀ j < i, m.bucketl cfg j = [])
    (hhead : ((m.bucketl cfg i).filter fun q => .handler q ∉ m.stack).head? = le) : Good cfg m := by
  refine ⟨h, hshape, fun j le' hmem => ?_, by simp [hdead]⟩
  obtain ⟨rfl, rfl⟩ := hwalk j le' hmem
  exact ⟨hbefore, hhead⟩

theorem Sound.goodWalk_of_stack (h : Sound m) (hst : m.stack = [.closeWalk i le])
    (hdead : m.dead = false) (hbefore : ∀ j < i, m.bucketl cfg j = []) (hhead : (m.bucketl cfg i).head? = le) :
    Good cfg m := by
  refine h.goodWalk i le ?_ hdead ?_ hbefore ?_
  · rw [hst]
    exact .called (.close _ _)
  · simp [hst]
  · rw [hst, filter_no_handler (Called.close _ _).no_handler, hhead]

theorem Sound.pushWalk (h : Sound m) (hst : m.stack = []) (hl : ∀ q ∈ l, q ∈ m.live)
    : Sound (m.push (.closeWalk i l.head?)) ∧
      (m.push (.closeWalk i l.head?)).stack = [.closeWalk i l.head?] := by
  have hframe : FrameOk m (.closeWalk i l.head?) := fun q hq => hl q (mem_of_mem_head? hq)
  refine ⟨h.push hframe (fun q _ => by rw [hst]; exact not_mem_nil) ?_ nofun, by rw [Dnsc.push, hst]⟩
  show l.head?.toList.Nodup
  cases l.head? <;> simp

/-- `query_close_handler`, and the walk stands behind the query. -/
theorem closeHandler_moves (hr : Reaches s m) (h : Sound m) (hst : m.stack = []) (hdead : m.dead = false)
    (hbefore : ∀ j < i, m.bucketl cfg j = []) (hx : x ∈ m.queries) (hlive : x.adr ∈ s.live)
    (hl : m.bucketl cfg i = x.adr :: l) :
    Moves cfg s (queryHandler (m.push (.closeWalk i l.head?)) x err) := by
  have hnodup := @nodup_bucketl cfg _ h.heap i
  rw [hl] at hnodup
  have hno : ∀ q, .handler q ∉ s.stack := fun q hq => eq_nil_iff_forall_not_mem.1 hst _ (hr.handlers q hq)
  obtain ⟨hpushed, hstack⟩ := h.pushWalk hst (fun q hq => @mem_live_of_bucketl cfg m q i
    (by rw [hl]; exact mem_cons_of_mem _ hq))
  have hpin : x.adr ∉ pins [.closeWalk i l.head?] := by
    intro hmem
    rw [pins, flatMap_singleton] at hmem
    exact (nodup_cons.1 hnodup).1 (mem_of_mem_head? (Option.mem_toList.1 hmem))
  obtain ⟨hnew, heq | heq⟩ := queryHandler_spec hpushed (mem_map_of_mem hx) (by rw [hstack]; exact hpin)
  · rw [heq] at hnew ⊢
    generalize hm' : ((m.push (.closeWalk i l.head?)).setQuery { x with qp := false }).push (.handler x.adr) = m' at hnew
    have hstack' : m'.stack = [.handler x.adr, .closeWalk i l.head?] := by
      rw [← hm', Dnsc.push, Dnsc.setQuery, hstack]
    have hbuckets : ∀ j, m'.bucketl cfg j = m.bucketl cfg j := fun j => by
      rw [← hm']
      exact @bucketl_setQuery cfg _ x hpushed.heap { x with qp := false } hx rfl rfl j
    have hfilter : ((x.adr :: l).filter fun q => Frame.handler q ∉ [.handler x.adr, .closeWalk i l.head?]) =
        (x.adr :: l).filter (· ≠ x.adr) := filter_congr fun q _ => by simp
    refine ⟨hnew.goodWalk i l.head? ?_ ?_ ?_ ?_ ?_, ?_, ?_, fun p hp => absurd hp (hno p), Nat.le_refl 1,
      forall_mem_singleton.2 ⟨hlive, hno _, .inl ?_⟩⟩
    · rw [hstack']
      exact .handler _ (.close _ _)
    · rw [← hm']
      exact hdead
    · rw [hstack']
      intro j le' hmem
      simpa using hmem
    · exact fun j hj => by rw [hbuckets]; exact hbefore j hj
    · rw [hstack', hbuckets, hl, hfilter, Sound.filter_ne_cons hnodup]
    · rw [← hm']
      exact hr.next
    · rw [← hm']
      exact ((hr.push).setQuery).live
    · rw [hstack']
      exact mem_cons_self
  · rw [heq] at hnew ⊢
    have hbucket : ∀ j, (m.push (.closeWalk i l.head?)).bucketl cfg j = m.bucketl cfg j := fun _ => rfl
    refine ((hr.push).drop).quiet (hnew.goodWalk_of_stack hstack hdead (fun j hj => ?_) ?_)
    · rw [bucketl_drop, hbucket, hbefore j hj]
      rfl
    · rw [bucketl_drop, hbucket, hl, Sound.filter_ne_cons hnodup]

theorem good_empty (h : m.fault = false) : Good cfg { m with queries := [], tcs := [], stack := [] } := by
  refine ⟨⟨h, ⟨nodup_nil, ?_, nodup_nil, ?_, ?_, ?_, ?_, ?_⟩, ?_, nodup_nil, nodup_nil⟩, .called .loop, nofun,
    fun _ => ⟨rfl, rfl, rfl⟩⟩
  all_goals exact nofun

theorem dead_good (h : Sound m) (hst : m.stack = []) (hqueries : m.queries = []) :
    Good cfg (Dnsc.sweep { m with tcs := m.tcs.map fun t => { t with ref := false }, dead := true }) := by
  have hql : ∀ t ∈ m.tcs, t.ql = [] := by
    refine fun t ht => eq_nil_iff_forall_not_mem.2 fun q hq => ?_
    have hmem := h.heap.qlLive t ht q hq
    rw [Dnsc.live, hqueries] at hmem
    cases hmem
  have htcs : (m.tcs.map fun t => { t with ref := false }).filter (fun t => t.ref ∨ t.ql ≠ []) = [] := by
    refine filter_eq_nil_iff.2 (forall_mem_map.2 fun t ht => ?_)
    simp [hql t ht]
  unfold Dnsc.sweep
  simp only [htcs, hqueries, hst]
  exact @good_empty cfg { m with dead := true } h.fault

theorem closeStep_moves (h : Good cfg s) (hst : s.stack = [.closeWalk i le]) :
    Moves cfg s (closeStep cfg s.pop i le) := by
  obtain ⟨hpop, hsound, hframe, -, hdead⟩ := h.top hst
  have hr := reaches_pop hst (by simp)
  have hno : ∀ q, .handler q ∉ s.stack := by
    rw [hst]
    exact (Called.close i le).no_handler
  obtain ⟨hbefore, hhead⟩ := h.close i le (by rw [hst]; exact mem_singleton_self _)
  rw [filter_no_handler hno] at hhead
  unfold closeStep
  cases le with
  | some q =>
    obtain ⟨l, hl⟩ := head?_eq_some_iff.1 hhead
    obtain ⟨x, hx⟩ := query?_of_live (hframe q rfl)
    obtain ⟨hmem, rfl⟩ := query?_some hx
    have hl' : s.pop.bucketl cfg i = x.adr :: l := hl
    simp only [hx, hl', Sound.nextOf_head]
    exact closeHandler_moves hr hsound hpop hdead hbefore hmem (mem_map_of_mem hmem) hl'
  | none =>
    have hbefore' : ∀ j < i + 1, s.bucketl cfg j = [] := by
      intro j hj
      rcases Nat.lt_succ_iff_lt_or_eq.1 hj with hj | rfl
      · exact hbefore j hj
      · exact head?_eq_none_iff.1 hhead
    dsimp only
    split
    · obtain ⟨hpushed, hstack⟩ := hsound.pushWalk hpop (fun q hq => @mem_live_of_bucketl cfg s q (i + 1) hq)
      exact (hr.push).quiet (hpushed.goodWalk_of_stack hstack hdead hbefore' rfl)
    · next hlast =>
      -- every query is in some bucket
      have hqueries : s.queries = [] := by
        refine eq_nil_iff_forall_not_mem.2 fun x hx => ?_
        have hpos := cfg.pos
        have hle : bucket cfg x.name ≤ cfg.bsize - 1 := Nat.and_le_right
        have hmem : x.adr ∈ s.bucketl cfg (bucket cfg x.name) := mem_map_of_mem (mem_filter.2 ⟨hx, by simp⟩)
        rw [hbefore' _ (by omega)] at hmem
        cases hmem
      have href : ¬ s.pop.tcs.any (·.ref = false) := by
        rw [any_eq_true]
        rintro ⟨t, ht, hfalse⟩
        rw [h.sound.heap.ref t ht] at hfalse
        cases hfalse
      rw [if_neg href]
      exact ⟨dead_good hsound hpop hqueries, Nat.le_refl _, fun q hq => .inl hq, fun q hq => absurd hq (hno q),
        Nat.zero_le _, nofun⟩

/-! ### The application -/

def Frame.held : Frame → List Nat
  | .handler _ => []
  | f => f.pins

def Calm (s : Dnsc) : Event → Prop
  | .destroy => s.stack = []
  | .free q => ∀ f ∈ s.stack, q ∉ f.held
  | .query _ => ∀ i le, .closeWalk i le ∉ s.stack
  | .go env => ∀ q, .handler q ∈ s.stack → env.send = none
  | _ => True

theorem appTurn_cases (h : Good cfg s) (hturn : s.appTurn) :
    s.stack = [] ∨ ∃ q st, s.stack = .handler q :: st ∧ Called st := by
  have hshape := h.shape
  unfold Dnsc.appTurn at hturn
  split at hturn
  · next hst => exact .inl hst
  · next q st hst =>
    rw [hst] at hshape
    cases hshape with
    | handler _ h => exact .inr ⟨q, st, hst, h⟩
    | called h => exact absurd mem_cons_self (h.no_handler q)
  · cases hturn

theorem Good.drop (h : Good cfg s) (hq : q ∉ pins s.stack) : Good cfg (s.drop q) := by
  refine ⟨h.sound.drop hq, h.shape, fun i le hmem => ?_, fun hd => ?_⟩
  · obtain ⟨hbefore, hhead⟩ := h.close i le hmem
    refine ⟨fun j hj => by rw [bucketl_drop, hbefore j hj]; rfl, ?_⟩
    rw [bucketl_drop, filter_comm, ← hhead]
    refine Sound.head?_filter_ne fun hmem' => hq ?_
    have hle : q ∈ le := hhead ▸ hmem'
    exact mem_flatMap.2 ⟨_, hmem, Option.mem_toList.2 hle⟩
  obtain ⟨hqueries, htcs, hstack⟩ := h.dead hd
  refine ⟨?_, ?_, hstack⟩
  · show s.queries.filter _ = []
    rw [hqueries]
    rfl
  · rw [drop_eq h.sound.heap, htcs]
    rfl

theorem free_moves (h : Good cfg s) (hcalm : ∀ f ∈ s.stack, q ∉ f.held)
    (hx : s.query? q = some x) (hqp : x.qp) : Moves cfg s (s.drop q, [.freed q]) := by
  obtain ⟨hmem, hadr⟩ := query?_some hx
  -- the application has no pointer to the query of a handler that is running
  have hno : .handler q ∉ s.stack := by
    intro hf
    obtain ⟨y, hy, hyadr, hyqp⟩ := h.sound.frames _ hf
    rw [h.sound.heap.query_unique hy hmem (hyadr.trans hadr.symm), hqp] at hyqp
    cases hyqp
  have hpin : q ∉ pins s.stack := by
    intro hpin
    obtain ⟨f, hf, hqf⟩ := mem_flatMap.1 hpin
    cases f with
    | handler p =>
      rw [mem_singleton.1 hqf] at hno
      exact hno hf
    | closeWalk | failWalk | sendTcp => exact hcalm _ hf hqf
    | tcpRecv => cases hqf
  have hgone : q ∉ (s.drop q).live := fun hmem => (mem_live_drop.1 hmem).2 rfl
  exact ⟨h.drop hpin, Nat.le_refl _, fun p hp => .inl (mem_live_drop.1 hp).1, fun p hp => .inl hp, Nat.le_refl 1,
    forall_mem_singleton.2 ⟨live_of_query? hx, hno, .inr hgone⟩⟩

theorem ret_moves (h : Good cfg s) (hst : s.stack = .handler q :: st)
    (hcalled : Called st) : Moves cfg s (handlerReturned s.pop q) := by
  obtain ⟨hpop, hsound, ⟨x, hx, hadr, -⟩, hpins, hdead⟩ := h.top hst
  have hpin : q ∉ pins s.pop.stack := by
    rw [hpop]
    exact hpins q (mem_singleton_self q)
  obtain ⟨y, hy⟩ := query?_of_live (s := s.pop) (q := q) (hadr ▸ mem_map_of_mem hx)
  have hgone : q ∉ (s.pop.drop q).live := fun hmem => (mem_live_drop.1 hmem).2 rfl
  have hstack : (s.pop.drop q).stack = st := hpop
  unfold handlerReturned
  rw [hy]
  refine ⟨⟨hsound.drop hpin, ?_, fun i le hmem => ?_, fun hd => absurd (hd.symm.trans hdead) (by decide)⟩, Nat.le_refl _,
    fun p hp => .inl (mem_live_drop.1 hp).1, fun p hp => ?_, Nat.zero_le _, nofun⟩
  · rw [hstack]
    exact .called hcalled
  · rw [hstack] at hmem
    obtain ⟨hbefore, hhead⟩ := h.close i le (by rw [hst]; exact mem_cons_of_mem _ hmem)
    have hbucket : ∀ j, s.pop.bucketl cfg j = s.bucketl cfg j := fun _ => rfl
    refine ⟨fun j hj => by rw [bucketl_drop, hbucket, hbefore j hj]; rfl, ?_⟩
    rw [hstack, filter_no_handler hcalled.no_handler, bucketl_drop, hbucket, ← hhead, hst]
    refine congrArg _ (filter_congr fun p _ => ?_)
    have hiff : (Frame.handler p ∉ (Frame.handler q :: st)) ↔ p ≠ q := by
      simp [hcalled.no_handler p]
    simp only [hiff]
  · rw [hst] at hp
    rcases mem_cons.1 hp with heq | hp
    · cases heq
      exact .inr hgone
    · exact absurd hp (hcalled.no_handler p)

theorem query_moves (h : Good cfg s) (hturn : s.appTurn) (hdead : s.dead = false)
    (hcalm : ∀ i le, .closeWalk i le ∉ s.stack) {a : QueryArgs} : Moves cfg s (query s a) := by
  have hgone : Mid s { s with next := s.next + 1 } :=
    ⟨⟨Nat.le_succ _, fun _ hq => .inl hq, fun _ hq => hq⟩, h.sound.next, hdead, hcalm⟩
  have hadd : ∀ x : Query, x.adr = s.next → Mid s { s with queries := s.queries ++ [x], next := s.next + 1 } := by
    intro x hx
    refine ⟨⟨Nat.le_succ _, fun q hq => ?_, fun _ hq => hq⟩, h.sound.addQuery hx, hdead, hcalm⟩
    obtain ⟨y, hy, rfl⟩ := mem_map.1 hq
    rcases mem_append.1 hy with hy | hy
    · exact .inl (mem_map_of_mem hy)
    · rw [mem_singleton.1 hy, hx]
      exact .inr (Nat.le_refl _)
  unfold query
  split
  · exact h.stay
  dsimp only
  split
  · exact hgone.quiet h.shape
  split
  · -- a query over TCP
    have hmid := hadd ⟨s.next, a.name, a.id, a.opcode, a.type, a.dnsclass, [], 0, none, false, a.qh⟩ rfl
    have hsend : Sending (.query a.qp) s.stack := by
      rcases appTurn_cases h hturn with hst | ⟨q, st, hst, hcalled⟩
      · rw [hst]
        exact .query _
      · rw [hst] at hcalm ⊢
        exact .within _ _ hcalled fun i le hmem => hcalm i le (mem_cons_of_mem _ hmem)
    have hpushed := hmid.sound.pushSend (q := s.next) ?_ (fun t ht hmem => ?_) (fun hmem => ?_) (.query a.qp) none
    · exact (hmid.push hpushed (by simp)).quiet (.sending _ _ _ hsend)
    · show s.next ∈ (s.queries ++ [_]).map Query.adr
      rw [map_append]
      exact mem_append_right _ (mem_singleton_self _)
    · exact Nat.lt_irrefl _ (h.sound.heap.adrs_lt _ (h.sound.heap.qlLive t ht _ hmem))
    · exact Nat.lt_irrefl _ (h.sound.heap.adrs_lt _ (h.sound.live hmem))
  · split
    · exact hgone.quiet h.shape
    · exact (hadd _ rfl).quiet h.shape
  · exact hgone.quiet h.shape

theorem appStep_moves (h : Good cfg s) (hturn : s.appTurn) {ev : Event} (hcalm : Calm s ev) :
    Moves cfg s (appStep cfg s ev) := by
  unfold appStep
  split
  · next a =>
    split
    · exact h.stay
    · next hdead => exact query_moves h hturn (Bool.eq_false_iff.2 hdead) hcalm
  · next q =>
    split
    · exact h.stay
    · next x hx =>
      split
      · next hqp => exact free_moves h hcalm hx hqp
      · exact h.stay
  · split
    · exact h.stay
    · next hdead =>
      have hst : s.stack = [] := hcalm
      obtain ⟨hpushed, hstack⟩ := h.sound.pushWalk hst (fun q hq => @mem_live_of_bucketl cfg s q 0 hq)
      exact ((Reaches.refl).push).quiet (hpushed.goodWalk_of_stack hstack (Bool.eq_false_iff.2 hdead)
        (fun _ hj => absurd hj (by simp)) rfl)
  · split
    · next q st hst =>
      rcases appTurn_cases h hturn with hnil | ⟨q', st', hst', hcalled⟩
      · rw [hst] at hnil
        cases hnil
      rw [hst] at hst'
      cases hst'
      exact ret_moves h hst hcalled
    · exact h.stay
  · exact h.stay

theorem timeout_moves (h : Mid s s) (hst : s.stack = []) (hx : s.query? q = some x) {tmr : Timer} {srvc : Nat}
    {udp : Nat → Option Errno} : Moves cfg s (timeout s x tmr srvc udp) := by
  have hlive : x.adr ∈ s.live := mem_map_of_mem (query?_some hx).1
  have hset : ∀ y : Query, Mid s (s.setQuery y) := fun y =>
    h.setQuery fun hmem => absurd hmem (eq_nil_iff_forall_not_mem.1 hst _)
  -- the query is changed, and its handler is called
  have hcall : ∀ y : Query, y.adr = x.adr → ∀ err, Moves cfg s (queryHandler (s.setQuery y) y err) := by
    intro y hy err
    refine (hset y).call (.of_eq hst) (by rw [live_setQuery, hy]; exact hlive) (by rw [hy]; exact hlive) ?_ err
    show y.adr ∉ pins s.stack
    rw [hst]
    exact not_mem_nil
  unfold timeout
  cases tmr with
  | tcp => exact hcall { x with tmr := none } rfl _
  | udp =>
    dsimp only
    split
    · exact hcall { x with tmr := none } rfl _
    split
    · next ntx err _ => exact hcall { x with ntx, tmr := none } rfl _
    · exact (hset _).quiet (.called (.of_eq hst))

theorem loopStep_moves (h : Good cfg s) (hst : s.stack = []) {ev : Event} : Moves cfg s (loopStep cfg s ev) := by
  have hno : ∀ f, f ∉ s.stack := eq_nil_iff_forall_not_mem.1 hst
  have hmid : ¬ s.dead → Mid s s := fun hdead =>
    ⟨.refl, h.sound, Bool.eq_false_iff.2 hdead, fun _ _ => hno _⟩
  -- a client that is dead has no connections
  have halive : ∀ {t}, t ∈ s.tcs → Mid s s := by
    intro t ht
    refine hmid fun hd => ?_
    rw [(h.dead hd).2.1] at ht
    cases ht
  have hconn : ∀ {tc t}, s.conn? tc = some t → t ∈ s.tcs ∧ t.conn := by
    intro tc t hfind
    obtain ⟨hfind, hconn⟩ := Option.filter_eq_some_iff.1 hfind
    exact ⟨(tc?_some hfind).1, hconn⟩
  unfold loopStep
  split
  · split
    · exact h.stay
    · next srvc mb hdead =>
      obtain ⟨hsame, -, hcall⟩ := @replyRecv_spec cfg _ h.sound (fun _ => hno _) srvc mb
      have hnil := hsame.stack.trans hst
      exact ((hmid hdead).same hsame).reply (.of_eq hnil) (by rw [hnil]; rfl) hsame.live (by rw [hsame.live]; exact hcall)
  · split
    · exact h.stay
    · next x hx =>
      split
      · exact h.stay
      split
      · next hd =>
        rw [Dnsc.query?, (h.dead hd).1] at hx
        cases hx
      · next hd => exact timeout_moves (hmid hd) hst hx
  · split
    · exact h.stay
    · next t hfind =>
      obtain ⟨ht, -⟩ := hconn hfind
      split
      · exact (halive ht).close hst ht
      · have hset : Sound (s.setTc { t with connected := true }) := h.sound.setTc ht rfl rfl rfl rfl
        exact ((halive ht).same ⟨hset, rfl, rfl, Nat.le_refl _, rfl⟩).quiet h.shape
  · split
    · exact h.stay
    · next t hfind =>
      obtain ⟨ht, hc⟩ := hconn hfind
      exact tcpNext_moves (halive ht) hst rfl ht hc _
  · split
    · exact h.stay
    · next t hfind =>
      obtain ⟨ht, -⟩ := hconn hfind
      exact (halive ht).close hst ht
  · split
    · exact h.stay
    · next t hfind =>
      obtain ⟨ht, -⟩ := tc?_some hfind
      exact (halive ht).close hst ht
  · exact h.stay

/-! ## Runs -/

theorem goOn_moves (h : Good cfg s) {env : Env} (hcalm : Calm s (.go env)) : Moves cfg s (goOn cfg s env) := by
  have hshape := h.shape
  unfold goOn
  split
  all_goals try rename_i hst; rw [hst] at hshape
  · rcases hshape with ⟨_ | _ | _ | hw⟩
    · exact closeStep_moves h hst
    · nomatch hw.tail.2.1
  · rcases hshape with ⟨_ | _ | _ | hw⟩
    exact failStep_moves h hst (by rw [hst]; exact hw) env
  · rcases hshape with ⟨_ | _ | _ | hw⟩ | _ | ⟨_, _, _, hs⟩
    · nomatch hw.tail.2.1
    · exact sendStep_moves h hst hs hcalm
  · rcases hshape with ⟨_ | _ | _ | hw⟩
    · exact recvStep_moves h hst env
    · nomatch hw.tail.2.1
  · exact h.stay

theorem dnscStep_moves (h : Good cfg s) {ev : Event} (hcalm : Calm s ev) : Moves cfg s (dnscStep cfg s ev) := by
  have happ : Moves cfg s (if s.appTurn then appStep cfg s ev else (s, [])) := by
    split
    · next hturn => exact appStep_moves h hturn hcalm
    · exact h.stay
  have hloop : Moves cfg s (if s.stack = [] then loopStep cfg s ev else (s, [])) := by
    split
    · next hst => exact loopStep_moves h hst
    · exact h.stay
  unfold dnscStep
  rw [if_neg (by rw [h.sound.fault]; decide)]
  cases ev with
  | go env => exact goOn_moves h hcalm
  | query | free | destroy | ret => exact happ
  | udpRecv | timer | tcpEstab | tcpRecv | tcpClose | tcpTimer => exact hloop

theorem good_newDnsc : Good cfg newDnsc := @good_empty cfg newDnsc rfl

def CalledOnce (os : List Out) : Prop := ∀ a b q err, os = a ++ .qh q err :: b → .freed q ∉ a ∧ ∀ err', .qh q err' ∉ a

theorem calledOnce_of_nodup {os : List Out} (h : (os.map Out.query).Nodup) : CalledOnce os := by
  rintro a b q err rfl
  rw [map_append, nodup_append'] at h
  have hnot : ∀ o ∈ a, o.query ≠ q := fun o ho heq =>
    h.2.2 (mem_map_of_mem ho) (heq ▸ mem_cons_self)
  exact ⟨fun hmem => hnot _ hmem rfl, fun err' hmem => hnot _ hmem rfl⟩

/-- **Handlers are called once.** In every run of a client whose application keeps to `Calm`, no
memory is used that is gone, every handler is called at most once, and none after the application
has freed the query. -/
theorem handlers_called_once (evs : List Event) (hcalm : Along (dnscStep cfg) Calm newDnsc evs) :
    (exec (dnscStep cfg) newDnsc evs).fault = false ∧ CalledOnce (outs (dnscStep cfg) newDnsc evs).flatten := by
  have hgood := exec_inv (fun s ev (h : Good cfg s) hc => (dnscStep_moves h hc).good) evs newDnsc good_newDnsc hcalm
  refine ⟨hgood.sound.fault, calledOnce_of_nodup ?_⟩
  -- a query that was seen is gone or its handler is running
  have hnodup := outs_flatMap_nodup (List.map Out.query) Calm (Good cfg)
    (fun s q => q < s.next ∧ (q ∉ s.live ∨ .handler q ∈ s.stack))
    (fun s ev h hc => (dnscStep_moves h hc).good) ?_ ?_ evs newDnsc good_newDnsc hcalm
  · rw [map_flatten]
    exact hnodup.1
  · rintro s ev q h hc ⟨hlt, hq⟩
    have hmoves := dnscStep_moves h hc
    refine ⟨Nat.lt_of_lt_of_le hlt hmoves.next, ?_⟩
    rcases hq with hq | hq
    · refine .inl fun hlive => ?_
      rcases hmoves.live q hlive with hlive | hle
      · exact hq hlive
      · exact absurd hlt (Nat.not_lt.2 hle)
    · exact (hmoves.handlers q hq).symm
  intro s ev h hc
  have hmoves := dnscStep_moves h hc
  constructor
  · have hone := hmoves.one
    match hos : (dnscStep cfg s ev).2 with
    | [] => exact nodup_nil
    | [o] => exact nodup_singleton _
    | _ :: _ :: _ =>
      rw [hos] at hone
      simp at hone
  · intro q hq
    obtain ⟨o, ho, rfl⟩ := mem_map.1 hq
    obtain ⟨hlive, hno, hafter⟩ := hmoves.out o ho
    refine ⟨fun hblocked => hblocked.2.elim (fun hn => hn hlive) hno, ?_, hafter.symm⟩
    exact Nat.lt_of_lt_of_le (h.sound.heap.adrs_lt _ hlive) hmoves.next

end

/-! ## A handler that destroys the client -/

def oneBucket : Conf := ⟨fun _ => 0, 1, Nat.one_pos, pure 1⟩

def aQuery : QueryArgs := ⟨0, ascii "a", 1, 1, .udp, true, true, 1, true, none, 7, fun _ => none⟩

def noServer : Env := ⟨[], none, none, none, none⟩

/-- The query cannot be sent again, and its handler returns. -/
theorem handlers_called_once_timeout :
    (exec (dnscStep oneBucket) newDnsc [.query aQuery, .timer 0 1 fun _ => some .ECONNREFUSED, .ret]).fault = false ∧
      CalledOnce (outs (dnscStep oneBucket) newDnsc
        [.query aQuery, .timer 0 1 fun _ => some .ECONNREFUSED, .ret]).flatten :=
  handlers_called_once _ ⟨fun _ _ => not_mem_nil, trivial, trivial, trivial⟩

/-- The query cannot be sent again, and its handler destroys the client: it is called a second
time. -/
theorem handler_called_twice :
    (outs (dnscStep oneBucket) newDnsc
        [.query aQuery, .timer 0 1 fun _ => some .ECONNREFUSED, .destroy, .go noServer]).flatten =
      [.qh 0 (some .ECONNREFUSED), .qh 0 (some .ECONNABORTED)] ∧
    ¬ CalledOnce [.qh 0 (some .ECONNREFUSED), .qh 0 (some .ECONNABORTED)] := by
  refine ⟨by decide +kernel, fun honce => ?_⟩
  exact (honce [.qh 0 (some .ECONNREFUSED)] [] 0 (some .ECONNABORTED) rfl).2 _ mem_cons_self

end BareRTC.Dns
