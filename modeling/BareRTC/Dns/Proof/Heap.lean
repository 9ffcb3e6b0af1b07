import BareRTC.Dns.Client

/-!
# The DNS client: queries, connections and the stack (`re/src/dns/client.c`)

`Heap` is what holds of the queries and connections of a client: every connection has the reference
that it was made with, and a query is on the list of one connection at most. `Sound` says that the
frames on the stack go on with what is there, and no two of them with the same query. There is a
lemma for each change of the state.
-/

namespace BareRTC.Dns

open List

open Sdp (Sa)

/-! ## The heap -/

def Dnsc.live (s : Dnsc) : List Nat := s.queries.map Query.adr

structure Heap (s : Dnsc) : Prop where
  adrs : s.live.Nodup
  adrs_lt : ∀ q ∈ s.live, q < s.next
  tadrs : (s.tcs.map Tcpconn.adr).Nodup
  tadrs_lt : ∀ t ∈ s.tcs, t.adr < s.next
  ref : ∀ t ∈ s.tcs, t.ref
  ql : ∀ t ∈ s.tcs, t.ql.Nodup
  qlLive : ∀ t ∈ s.tcs, ∀ q ∈ t.ql, q ∈ s.live
  apart : ∀ t ∈ s.tcs, ∀ t' ∈ s.tcs, ∀ q ∈ t.ql, q ∈ t'.ql → t.adr = t'.adr

section
variable {s : Dnsc} {q tc : Nat} {x : Query} {t : Tcpconn}

theorem query?_some (h : s.query? q = some x) : x ∈ s.queries ∧ x.adr = q :=
  ⟨mem_of_find?_eq_some h, by simpa using find?_some h⟩

theorem live_of_query? (h : s.query? q = some x) : q ∈ s.live := by
  obtain ⟨hx, rfl⟩ := query?_some h
  exact mem_map_of_mem hx

theorem query?_of_live (h : q ∈ s.live) : ∃ x, s.query? q = some x := by
  obtain ⟨x, hx, hadr⟩ := mem_map.1 h
  cases hq : s.query? q with
  | some y => exact ⟨y, rfl⟩
  | none => exact absurd (by simpa using hadr) (find?_eq_none.1 hq x hx)

theorem tc?_some (h : s.tc? tc = some t) : t ∈ s.tcs ∧ t.adr = tc :=
  ⟨mem_of_find?_eq_some h, by simpa using find?_some h⟩

theorem Heap.tc_unique (h : Heap s) {t' : Tcpconn} (ht : t ∈ s.tcs) (ht' : t' ∈ s.tcs) (hadr : t.adr = t'.adr) :
    t = t' := inj_on_of_nodup_map h.tadrs ht ht' hadr

theorem Heap.query_unique (h : Heap s) {y : Query} (hx : x ∈ s.queries) (hy : y ∈ s.queries) (hadr : x.adr = y.adr) :
    x = y := inj_on_of_nodup_map h.adrs hx hy hadr

theorem Heap.tc?_eq (h : Heap s) (ht : t ∈ s.tcs) : s.tc? t.adr = some t := by
  cases hfind : s.tc? t.adr with
  | none => exact absurd (by simp) (find?_eq_none.1 hfind t ht)
  | some t' =>
    obtain ⟨ht', hadr⟩ := tc?_some hfind
    rw [h.tc_unique ht ht' hadr.symm]

end

/-! ### What the operations do to it -/

section
variable (s : Dnsc)

@[simp] theorem live_setQuery {x : Query} : (s.setQuery x).live = s.live := by
  unfold Dnsc.setQuery Dnsc.live
  rw [map_map]
  refine map_congr_left fun y _ => ?_
  by_cases hadr : y.adr = x.adr
  · simp [hadr]
  · simp [hadr]

theorem mem_setTc {t t' : Tcpconn} (h : t' ∈ (s.setTc t).tcs) : t' = t ∨ t' ∈ s.tcs ∧ t'.adr ≠ t.adr := by
  obtain ⟨z, hz, rfl⟩ := mem_map.1 h
  by_cases hadr : z.adr = t.adr
  · exact .inl (if_pos hadr)
  · rw [if_neg hadr]
    exact .inr ⟨hz, hadr⟩

end

theorem sweep_eq {s : Dnsc} (h : ∀ t ∈ s.tcs, t.ref) : s.sweep = s := by
  have hall : s.tcs.filter (fun t => t.ref ∨ t.ql ≠ []) = s.tcs := filter_eq_self.2 fun t ht => by simp [h t ht]
  unfold Dnsc.sweep
  rw [hall]

def Tcpconn.without (q : Nat) (t : Tcpconn) : Tcpconn := { t with ql := t.ql.filter (· ≠ q) }

theorem leave_eq {s : Dnsc} (h : Heap s) (q : Nat) : s.leave q = { s with tcs := s.tcs.map (Tcpconn.without q) } := by
  refine sweep_eq fun t ht => ?_
  obtain ⟨t', ht', rfl⟩ := mem_map.1 ht
  exact h.ref t' ht'

theorem drop_eq {s : Dnsc} (h : Heap s) (q : Nat) : s.drop q =
    { s with tcs := s.tcs.map (Tcpconn.without q), queries := s.queries.filter (·.adr ≠ q) } := by
  unfold Dnsc.drop
  rw [leave_eq h]

theorem mem_live_drop {s : Dnsc} {q p : Nat} : p ∈ (s.drop q).live ↔ p ∈ s.live ∧ p ≠ q := by
  have hqueries : (s.drop q).live = (s.queries.filter (·.adr ≠ q)).map Query.adr := rfl
  rw [hqueries, Dnsc.live, mem_map, mem_map]
  constructor
  · rintro ⟨x, hx, rfl⟩
    rw [mem_filter] at hx
    exact ⟨⟨x, hx.1, rfl⟩, by simpa using hx.2⟩
  · rintro ⟨⟨x, hx, rfl⟩, hne⟩
    exact ⟨x, mem_filter.2 ⟨hx, by simpa using hne⟩, rfl⟩

namespace Heap

variable {s : Dnsc}

section
variable (h : Heap s)
include h

theorem withStack {st : List Frame} : Heap { s with stack := st } := { h with }

theorem mapTcs {g : Tcpconn → Tcpconn} (hadr : ∀ t ∈ s.tcs, (g t).adr = t.adr)
    (href : ∀ t ∈ s.tcs, (g t).ref) (hql : ∀ t ∈ s.tcs, (g t).ql.Nodup)
    (hlive : ∀ t ∈ s.tcs, ∀ q ∈ (g t).ql, q ∈ s.live)
    (hapart : ∀ t ∈ s.tcs, ∀ t' ∈ s.tcs, ∀ q ∈ (g t).ql, q ∈ (g t').ql → t.adr = t'.adr) :
    Heap { s with tcs := s.tcs.map g } := by
  have hadrs : (s.tcs.map g).map Tcpconn.adr = s.tcs.map Tcpconn.adr := by
    rw [map_map]
    exact map_congr_left hadr
  refine ⟨h.adrs, h.adrs_lt, by rw [hadrs]; exact h.tadrs, ?_, forall_mem_map.2 href, forall_mem_map.2 hql,
    forall_mem_map.2 hlive, ?_⟩
  · refine forall_mem_map.2 fun t ht => ?_
    rw [hadr t ht]
    exact h.tadrs_lt t ht
  · refine forall_mem_map.2 fun t ht => forall_mem_map.2 fun t' ht' => ?_
    rw [hadr t ht, hadr t' ht']
    exact hapart t ht t' ht'

theorem leave (q : Nat) : Heap (s.leave q) := by
  rw [leave_eq h]
  refine h.mapTcs (fun _ _ => rfl) h.ref (fun t ht => (h.ql t ht).filter _) ?_ ?_
  · exact fun t ht p hp => h.qlLive t ht p (mem_of_mem_filter hp)
  · exact fun t ht t' ht' p hp hp' =>
      h.apart t ht t' ht' p (mem_of_mem_filter hp) (mem_of_mem_filter hp')

theorem setQuery {x : Query} : Heap (s.setQuery x) :=
  ⟨by rw [live_setQuery]; exact h.adrs, by rw [live_setQuery]; exact h.adrs_lt, h.tadrs, h.tadrs_lt, h.ref, h.ql,
    by rw [live_setQuery]; exact h.qlLive, h.apart⟩

theorem drop {q : Nat} : Heap (s.drop q) := by
  have hleave := h.leave q
  have hsub : ∀ p ∈ (s.drop q).live, p ∈ s.live := fun p hp => (mem_live_drop.1 hp).1
  refine ⟨?_, fun p hp => h.adrs_lt p (hsub p hp), hleave.tadrs, hleave.tadrs_lt, hleave.ref, hleave.ql, ?_,
    hleave.apart⟩
  · exact h.adrs.sublist (filter_sublist.map Query.adr)
  intro t ht p hp
  refine mem_live_drop.2 ⟨hleave.qlLive t ht p hp, ?_⟩
  rw [drop_eq h] at ht
  obtain ⟨t', -, rfl⟩ := mem_map.1 ht
  simpa using (mem_filter.1 hp).2

theorem setTc {t t' : Tcpconn} (ht : t ∈ s.tcs) (hadr : t'.adr = t.adr) (href : t'.ref)
    (hql : t'.ql.Nodup) (hlive : ∀ q ∈ t'.ql, q ∈ s.live)
    (hapart : ∀ q ∈ t'.ql, q ∉ t.ql → ∀ t2 ∈ s.tcs, q ∉ t2.ql) : Heap (s.setTc t') := by
  have hsame : ∀ t2 ∈ s.tcs, ¬ t2.adr = t'.adr → ∀ q ∈ t'.ql, q ∉ t2.ql := by
    intro t2 ht2 hne q hq hq2
    by_cases hmem : q ∈ t.ql
    · exact hne ((h.apart t2 ht2 t ht q hq2 hmem).trans hadr.symm)
    · exact hapart q hq hmem t2 ht2 hq2
  refine h.mapTcs (fun t2 _ => ?_) (fun t2 ht2 => ?_) (fun t2 ht2 => ?_) (fun t2 ht2 => ?_) ?_
  · split
    · next heq => exact heq.symm
    · rfl
  · split
    · exact href
    · exact h.ref t2 ht2
  · split
    · exact hql
    · exact h.ql t2 ht2
  · split
    · exact hlive
    · exact h.qlLive t2 ht2
  intro t2 ht2 t3 ht3 q hq2 hq3
  split at hq2 <;> split at hq3
  · next h2 h3 => exact h2.trans h3.symm
  · next h3 => exact absurd hq3 (hsame t3 ht3 h3 q hq2)
  · next h2 _ => exact absurd hq2 (hsame t2 ht2 h2 q hq3)
  · exact h.apart t2 ht2 t3 ht3 q hq2 hq3

theorem addTc {srv : Sa} {q : Nat} (hq : q ∈ s.live) (hfree : ∀ t ∈ s.tcs, q ∉ t.ql) :
    Heap { s with tcs := s.tcs ++ [⟨s.next, srv, true, false, true, [q], 0, []⟩], next := s.next + 1 } := by
  have hfresh : ∀ t ∈ s.tcs, t.adr ≠ s.next := fun t ht => Nat.ne_of_lt (h.tadrs_lt t ht)
  refine ⟨h.adrs, fun p hp => Nat.lt_succ_of_lt (h.adrs_lt p hp), ?_, ?_, ?_, ?_, ?_, ?_⟩
  · rw [map_append, map_singleton, nodup_append']
    refine ⟨h.tadrs, nodup_singleton _, ?_⟩
    rw [disjoint_singleton]
    intro hmem
    obtain ⟨t, ht, hadr⟩ := mem_map.1 hmem
    exact hfresh t ht hadr
  · exact forall_mem_append.2 ⟨fun t ht => Nat.lt_succ_of_lt (h.tadrs_lt t ht),
      forall_mem_singleton.2 (Nat.lt_succ_self _)⟩
  · exact forall_mem_append.2 ⟨h.ref, forall_mem_singleton.2 rfl⟩
  · exact forall_mem_append.2 ⟨h.ql, forall_mem_singleton.2 (nodup_singleton q)⟩
  · exact forall_mem_append.2 ⟨h.qlLive, forall_mem_singleton.2 (forall_mem_singleton.2 hq)⟩
  refine forall_mem_append.2 ⟨fun t ht => forall_mem_append.2 ⟨h.apart t ht, ?_⟩,
    forall_mem_singleton.2 (forall_mem_append.2 ⟨fun t ht => ?_, ?_⟩)⟩
  · refine forall_mem_singleton.2 fun p hp hp' => ?_
    rw [mem_singleton.1 hp'] at hp
    exact absurd hp (hfree t ht)
  · exact forall_mem_singleton.2 fun hp => absurd hp (hfree t ht)
  · exact forall_mem_singleton.2 fun _ _ _ => rfl

theorem addQuery {x : Query} (hx : x.adr = s.next) :
    Heap { s with queries := s.queries ++ [x], next := s.next + 1 } := by
  have hlive : ∀ p, p ∈ (s.queries ++ [x]).map Query.adr ↔ p ∈ s.live ∨ p = s.next := by
    intro p
    rw [map_append, map_singleton, mem_append, mem_singleton, hx]
    rfl
  refine ⟨?_, fun p hp => ?_, h.tadrs, fun t ht => Nat.lt_succ_of_lt (h.tadrs_lt t ht), h.ref, h.ql,
    fun t ht q hq => (hlive q).2 (.inl (h.qlLive t ht q hq)), h.apart⟩
  · show ((s.queries ++ [x]).map Query.adr).Nodup
    rw [map_append, map_singleton, nodup_append', hx]
    refine ⟨h.adrs, nodup_singleton _, ?_⟩
    rw [disjoint_singleton]
    exact fun hmem => Nat.lt_irrefl _ (h.adrs_lt _ hmem)
  · rcases (hlive p).1 hp with hp | rfl
    · exact Nat.lt_succ_of_lt (h.adrs_lt p hp)
    · exact Nat.lt_succ_self _

theorem next : Heap { s with next := s.next + 1 } :=
  ⟨h.adrs, fun p hp => Nat.lt_succ_of_lt (h.adrs_lt p hp), h.tadrs, fun t ht => Nat.lt_succ_of_lt (h.tadrs_lt t ht),
    h.ref, h.ql, h.qlLive, h.apart⟩

theorem removeTc {p : Tcpconn → Bool} : Heap { s with tcs := s.tcs.filter p } :=
  ⟨h.adrs, h.adrs_lt, h.tadrs.sublist (filter_sublist.map _), fun t ht => h.tadrs_lt t (mem_of_mem_filter ht),
    fun t ht => h.ref t (mem_of_mem_filter ht), fun t ht => h.ql t (mem_of_mem_filter ht),
    fun t ht => h.qlLive t (mem_of_mem_filter ht),
    fun t ht t' ht' => h.apart t (mem_of_mem_filter ht) t' (mem_of_mem_filter ht')⟩

end

end Heap

/-! ## Frames -/

def Frame.pins : Frame → List Nat
  | .handler q => [q]
  | .closeWalk _ le => le.toList
  | .failWalk _ le _ => le.toList
  | .sendTcp q _ _ => [q]
  | .tcpRecv _ _ _ => []

def pins (st : List Frame) : List Nat := st.flatMap Frame.pins

def failTcs (st : List Frame) : List Nat := st.filterMap fun
  | .failWalk tc _ _ => some tc
  | _ => none

def Frame.Closing : Frame → Prop
  | .failWalk _ _ _ | .sendTcp _ _ _ => True
  | _ => False

def FrameOk (s : Dnsc) : Frame → Prop
  | .handler q => ∃ x ∈ s.queries, x.adr = q ∧ x.qp = false
  | .closeWalk _ le => ∀ q ∈ le, q ∈ s.live
  | .failWalk tc le _ => ∃ t ∈ s.tcs, t.adr = tc ∧ t.conn = false ∧ le = t.ql.head?
  | .sendTcp q _ _ => q ∈ s.live ∧ ∀ t ∈ s.tcs, q ∉ t.ql
  | .tcpRecv tc _ _ => ∃ t ∈ s.tcs, t.adr = tc ∧ t.conn

structure Sound (s : Dnsc) : Prop where
  fault : s.fault = false
  heap : Heap s
  frames : ∀ f ∈ s.stack, FrameOk s f
  pins : (pins s.stack).Nodup
  fails : (failTcs s.stack).Nodup

theorem pins_live {s : Dnsc} (h : Heap s) {f : Frame} (hf : FrameOk s f) : ∀ q ∈ f.pins, q ∈ s.live := by
  intro q hq
  cases f with
  | handler p =>
    obtain ⟨x, hx, hadr, -⟩ := hf
    rw [mem_singleton.1 hq, ← hadr]
    exact mem_map_of_mem hx
  | closeWalk i le => exact hf q (Option.mem_toList.1 hq)
  | failWalk tc le err =>
    obtain ⟨t, ht, -, -, rfl⟩ := hf
    exact h.qlLive t ht q (mem_of_mem_head? (Option.mem_toList.1 hq))
  | sendTcp p caller err =>
    rw [mem_singleton.1 hq]
    exact hf.1
  | tcpRecv => cases hq

namespace Sound

variable {s : Dnsc} {q : Nat} {t : Tcpconn} {l : List Nat}

theorem live (h : Sound s) (hq : q ∈ Dns.pins s.stack) : q ∈ s.live := by
  obtain ⟨f, hf, hq⟩ := mem_flatMap.1 hq
  exact pins_live h.heap (h.frames f hf) q hq

theorem withHeap (h : Sound s) {s' : Dnsc} (hstack : s'.stack = s.stack) (hfault : s'.fault = s.fault) (hheap : Heap s')
    (hframes : ∀ f ∈ s.stack, FrameOk s f → FrameOk s' f) : Sound s' :=
  ⟨by rw [hfault]; exact h.fault, hheap, by rw [hstack]; exact fun f hf => hframes f hf (h.frames f hf),
    by rw [hstack]; exact h.pins, by rw [hstack]; exact h.fails⟩

theorem pop (h : Sound s) : Sound s.pop :=
  ⟨h.fault, h.heap.withStack, fun f hf => h.frames f (mem_of_mem_tail hf),
    h.pins.sublist ((tail_sublist _).flatMap _), h.fails.sublist ((tail_sublist _).filterMap _)⟩

theorem push (h : Sound s) {f : Frame} (hf : FrameOk s f) (hpins : ∀ q ∈ f.pins, q ∉ Dns.pins s.stack)
    (hnodup : f.pins.Nodup) (hfails : ∀ tc le err, f = .failWalk tc le err → tc ∉ failTcs s.stack) :
    Sound (s.push f) := by
  refine ⟨h.fault, h.heap.withStack, forall_mem_cons.2 ⟨hf, h.frames⟩, ?_, ?_⟩
  · show (f.pins ++ Dns.pins s.stack).Nodup
    exact nodup_append'.2 ⟨hnodup, h.pins, hpins⟩
  cases f with
  | failWalk tc le err => exact nodup_cons.2 ⟨hfails tc le err rfl, h.fails⟩
  | handler | closeWalk | sendTcp | tcpRecv => exact h.fails

theorem head?_filter_ne (h : q ∉ l.head?) : (l.filter (· ≠ q)).head? = l.head? := by
  cases l with
  | nil => rfl
  | cons a l =>
    have hne : a ≠ q := fun heq => h (by rw [heq]; rfl)
    rw [filter_cons_of_pos (by simpa using hne)]
    rfl

theorem frameOk_leave (h : Heap s) {f : Frame} (hf : FrameOk s f) (hq : q ∉ f.pins) : FrameOk (s.leave q) f := by
  rw [leave_eq h]
  cases f with
  | handler | closeWalk => exact hf
  | failWalk tc le err =>
    obtain ⟨t, ht, hadr, hconn, rfl⟩ := hf
    refine ⟨t.without q, mem_map_of_mem ht, hadr, hconn, ?_⟩
    exact (head?_filter_ne fun hmem => hq (Option.mem_toList.2 hmem)).symm
  | sendTcp p caller err =>
    refine ⟨hf.1, forall_mem_map.2 fun t ht hmem => hf.2 t ht (mem_of_mem_filter hmem)⟩
  | tcpRecv tc err mbrx =>
    obtain ⟨t, ht, hadr, hconn⟩ := hf
    exact ⟨t.without q, mem_map_of_mem ht, hadr, hconn⟩

section
variable (h : Sound s)
include h

theorem leave (hq : q ∉ Dns.pins s.stack) : Sound (s.leave q) := by
  refine h.withHeap rfl rfl (h.heap.leave q) fun f hf hok => frameOk_leave h.heap hok fun hmem => ?_
  exact hq (mem_flatMap.2 ⟨f, hf, hmem⟩)

theorem drop (hq : q ∉ Dns.pins s.stack) : Sound (s.drop q) := by
  refine h.withHeap rfl rfl (h.heap.drop) fun f hf hok => ?_
  have hpin : q ∉ f.pins := fun hmem => hq (mem_flatMap.2 ⟨f, hf, hmem⟩)
  have hleave := frameOk_leave h.heap hok hpin
  cases f with
  | handler p =>
    obtain ⟨x, hx, hadr, hqp⟩ := hok
    refine ⟨x, mem_filter.2 ⟨hx, ?_⟩, hadr, hqp⟩
    have hne : q ≠ p := fun heq => hpin (mem_singleton.2 heq)
    rw [hadr]
    simpa using hne.symm
  | closeWalk i le =>
    refine fun p hp => mem_live_drop.2 ⟨hok p hp, ?_⟩
    rintro rfl
    exact hpin (Option.mem_toList.2 hp)
  | failWalk => exact hleave
  | sendTcp p caller err =>
    refine ⟨mem_live_drop.2 ⟨hok.1, ?_⟩, hleave.2⟩
    rintro rfl
    exact hpin (mem_singleton.2 rfl)
  | tcpRecv => exact hleave

/-- A query changes; if its handler is running, the application has no pointer to it. -/
theorem setQuery {x : Query} (hqp : .handler x.adr ∈ s.stack → x.qp = false) : Sound (s.setQuery x) := by
  refine h.withHeap rfl rfl (h.heap.setQuery) fun f hf hok => ?_
  cases f with
  | handler p =>
    obtain ⟨y, hy, rfl, hyqp⟩ := hok
    refine ⟨if y.adr = x.adr then x else y, mem_map_of_mem hy, ?_, ?_⟩
    · split
      · next heq => exact heq.symm
      · rfl
    split
    · next heq => exact hqp (heq ▸ hf)
    · exact hyqp
  | closeWalk i le =>
    intro p hp
    rw [live_setQuery]
    exact hok p hp
  | failWalk => exact hok
  | sendTcp p caller err => exact ⟨by rw [live_setQuery]; exact hok.1, hok.2⟩
  | tcpRecv => exact hok

/-- Frames that go on with a connection need its list if they fail it, and that it is open if they
read from it. -/
theorem replaceTc {t' : Tcpconn} (ht : t ∈ s.tcs) (hadr : t'.adr = t.adr) (hheap : Heap (s.setTc t'))
    (hwalk : t.adr ∉ failTcs s.stack ∨ t'.conn = t.conn ∧ t'.ql = t.ql)
    (hrecv : (∀ f ∈ s.stack, f.Closing) ∨ t'.conn = t.conn)
    (hsend : ∀ q caller err, .sendTcp q caller err ∈ s.stack → q ∉ t'.ql) : Sound (s.setTc t') := by
  refine h.withHeap rfl rfl hheap fun f hf hok => ?_
  cases f with
  | handler | closeWalk => exact hok
  | failWalk tc le err =>
    obtain ⟨t2, ht2, rfl, hc, rfl⟩ := hok
    by_cases heq : t2.adr = t'.adr
    · obtain rfl := h.heap.tc_unique ht2 ht (heq.trans hadr)
      obtain ⟨hconn, hql⟩ := hwalk.resolve_left (not_not_intro (mem_filterMap.2 ⟨_, hf, rfl⟩))
      exact ⟨t', mem_map.2 ⟨_, ht2, if_pos heq⟩, hadr, hconn.trans hc, by rw [hql]⟩
    · exact ⟨t2, mem_map.2 ⟨_, ht2, if_neg heq⟩, rfl, hc, rfl⟩
  | sendTcp p caller err =>
    refine ⟨hok.1, fun t2 ht2 => ?_⟩
    rcases mem_setTc s ht2 with rfl | ⟨ht2, -⟩
    · exact hsend _ _ _ hf
    · exact hok.2 t2 ht2
  | tcpRecv tc err mbrx =>
    obtain ⟨t2, ht2, rfl, hc⟩ := hok
    by_cases heq : t2.adr = t'.adr
    · obtain rfl := h.heap.tc_unique ht2 ht (heq.trans hadr)
      have hconn := hrecv.resolve_left fun hst => hst _ hf
      exact ⟨t', mem_map.2 ⟨_, ht2, if_pos heq⟩, hadr, hconn.trans hc⟩
    · exact ⟨t2, mem_map.2 ⟨_, ht2, if_neg heq⟩, rfl, hc⟩

theorem setTc {t' : Tcpconn} (ht : t ∈ s.tcs) (hadr : t'.adr = t.adr) (href : t'.ref = t.ref)
    (hql : t'.ql = t.ql) (hconn : t'.conn = t.conn) : Sound (s.setTc t') := by
  have hheap : Heap (s.setTc t') := h.heap.setTc ht hadr (by rw [href]; exact h.heap.ref t ht)
    (by rw [hql]; exact h.heap.ql t ht) (by rw [hql]; exact h.heap.qlLive t ht)
    (by rw [hql]; exact fun q hq hn => absurd hq hn)
  refine h.replaceTc ht hadr hheap (.inr ⟨hconn, hql⟩) (.inr hconn) fun q caller err hf => ?_
  rw [hql]
  exact (h.frames _ hf).2 t ht

/-- A query that is on the list of a connection and on which no function goes on -/
theorem ql_not_pinned (hst : ∀ f ∈ s.stack, f.Closing) (ht : t ∈ s.tcs)
    (hfail : t.adr ∉ failTcs s.stack) (hq : q ∈ t.ql) : q ∉ Dns.pins s.stack := by
  intro hmem
  obtain ⟨f, hf, hpin⟩ := mem_flatMap.1 hmem
  have hok := h.frames f hf
  cases f with
  | failWalk tc le err =>
    obtain ⟨t', ht', rfl, -, rfl⟩ := hok
    have hadr := h.heap.apart t ht t' ht' q hq (mem_of_mem_head? (Option.mem_toList.1 hpin))
    exact hfail (hadr ▸ mem_filterMap.2 ⟨_, hf, rfl⟩)
  | sendTcp p caller err =>
    rw [mem_singleton.1 hpin] at hq
    exact hok.2 t ht hq
  | handler | closeWalk | tcpRecv => exact hst _ hf

theorem not_failing (ht : t ∈ s.tcs) (hconn : t.conn) : t.adr ∉ failTcs s.stack := by
  intro hmem
  obtain ⟨f, hf, hadr⟩ := mem_filterMap.1 hmem
  cases f with
  | failWalk tc le err =>
    obtain ⟨t', ht', rfl, hc, -⟩ := h.frames _ hf
    obtain rfl := h.heap.tc_unique ht' ht (Option.some.inj hadr)
    rw [hconn] at hc
    cases hc
  | handler | closeWalk | sendTcp | tcpRecv => cases hadr

theorem close (hst : ∀ f ∈ s.stack, f.Closing) (ht : t ∈ s.tcs)
    (hfail : t.adr ∉ failTcs s.stack) (err : Option Errno) : Sound (tcpconnClose s t err) := by
  have hheap : Heap (s.setTc { t with conn := false }) := h.heap.setTc ht rfl (h.heap.ref t ht) (h.heap.ql t ht)
    (h.heap.qlLive t ht) fun q hq hn => absurd hq hn
  have hclosed : Sound (s.setTc { t with conn := false }) :=
    h.replaceTc ht rfl hheap (.inl hfail) (.inl hst) fun q caller err hf => (h.frames _ hf).2 t ht
  refine hclosed.push ⟨_, mem_map.2 ⟨t, ht, if_pos rfl⟩, rfl, rfl, rfl⟩ (fun q hq => ?_) ?_ ?_
  · exact h.ql_not_pinned hst ht hfail (mem_of_mem_head? (Option.mem_toList.1 hq))
  · show t.ql.head?.toList.Nodup
    cases t.ql.head? <;> simp
  rintro tc le err' heq
  cases heq
  exact hfail

end

theorem nextOf_head : nextOf (q :: l) q = l.head? := by
  simp [nextOf]

theorem filter_ne_cons (h : (q :: l).Nodup) : (q :: l).filter (· ≠ q) = l := by
  rw [filter_cons_of_neg (by simp)]
  refine filter_eq_self.2 fun a ha => ?_
  have hne : a ≠ q := fun heq => (nodup_cons.1 h).1 (heq ▸ ha)
  simpa using hne

theorem failNext (h : Sound s) (hst : ∀ f ∈ s.stack, f.Closing) (ht : t ∈ s.tcs)
    (hconn : t.conn = false) (hfail : t.adr ∉ failTcs s.stack) (hq : t.ql.head? = some q)
    (err : Option Errno) : Sound ((s.leave q).push (.failWalk t.adr (nextOf t.ql q) err)) := by
  obtain ⟨l, hl⟩ := head?_eq_some_iff.1 hq
  have hnodup := h.heap.ql t ht
  have hnot : ∀ p ∈ t.ql, p ∉ Dns.pins s.stack := fun p => h.ql_not_pinned hst ht hfail
  have hleave : Sound (s.leave q) := h.leave (hnot q (by rw [hl]; exact mem_cons_self))
  rw [hl] at hnodup hnot ⊢
  rw [nextOf_head]
  refine hleave.push ⟨t.without q, ?_, rfl, hconn, ?_⟩ (fun p hp => ?_) ?_ ?_
  · rw [leave_eq h.heap]
    exact mem_map_of_mem ht
  · rw [Tcpconn.without, hl, filter_ne_cons hnodup]
  · exact hnot p (mem_cons_of_mem _ (mem_of_mem_head? (Option.mem_toList.1 hp)))
  · show l.head?.toList.Nodup
    cases l.head? <;> simp
  · rintro tc le err' heq
    cases heq
    exact hfail

theorem endClose_eq (h : Heap s) (hql : t.ql = []) :
    (s.setTc { t with ref := false }).sweep = { s with tcs := s.tcs.filter (·.adr ≠ t.adr) } := by
  have hfilter : ∀ l : List Tcpconn, (∀ t2 ∈ l, t2.ref) →
      (l.map fun t' => if t'.adr = t.adr then { t with ref := false } else t').filter
        (fun t => t.ref ∨ t.ql ≠ []) = l.filter (·.adr ≠ t.adr) := by
    intro l hl
    induction l with
    | nil => rfl
    | cons a l ih =>
      obtain ⟨ha, hl⟩ := forall_mem_cons.1 hl
      rw [map_cons]
      by_cases hadr : a.adr = t.adr
      · rw [if_pos hadr, filter_cons_of_neg (by simp [hql]), filter_cons_of_neg (by simp [hadr]), ih hl]
      · rw [if_neg hadr, filter_cons_of_pos (by simp [ha]), filter_cons_of_pos (by simp [hadr]), ih hl]
  unfold Dnsc.sweep Dnsc.setTc
  simp only [hfilter s.tcs h.ref]

theorem endClose (h : Sound s) (hql : t.ql = []) (hst : ∀ f ∈ s.stack, f.Closing)
    (hfail : t.adr ∉ failTcs s.stack) : Sound (s.setTc { t with ref := false }).sweep := by
  rw [endClose_eq h.heap hql]
  refine h.withHeap rfl rfl (h.heap.removeTc) fun f hf hok => ?_
  cases f with
  | failWalk tc le err =>
    obtain ⟨t', ht', rfl, hc⟩ := hok
    refine ⟨t', mem_filter.2 ⟨ht', ?_⟩, rfl, hc⟩
    have hne : t'.adr ≠ t.adr := fun heq => hfail (heq ▸ mem_filterMap.2 ⟨_, hf, rfl⟩)
    simpa using hne
  | sendTcp p caller err => exact ⟨hok.1, fun t' ht' => hok.2 t' (mem_of_mem_filter ht')⟩
  | handler | closeWalk | tcpRecv => exact absurd (hst _ hf) id

theorem join (h : Sound s) (ht : t ∈ s.tcs) (hconn : t.conn) (hq : q ∈ s.live)
    (hfree : ∀ t ∈ s.tcs, q ∉ t.ql) (hpin : q ∉ Dns.pins s.stack) : Sound (s.setTc { t with ql := t.ql ++ [q] }) := by
  have hheap : Heap (s.setTc { t with ql := t.ql ++ [q] }) := by
    refine h.heap.setTc ht rfl (h.heap.ref t ht) ?_ ?_ ?_
    · rw [nodup_append']
      exact ⟨h.heap.ql t ht, nodup_singleton q, by simpa using hfree t ht⟩
    · exact forall_mem_append.2 ⟨h.heap.qlLive t ht, forall_mem_singleton.2 hq⟩
    intro p hp hn
    obtain rfl := mem_singleton.1 ((mem_append.1 hp).resolve_left hn)
    exact hfree
  refine h.replaceTc ht rfl hheap (.inl (h.not_failing ht hconn)) (.inr rfl) fun p caller err hf hmem => ?_
  rcases mem_append.1 hmem with hmem | hmem
  · exact (h.frames _ hf).2 t ht hmem
  · rw [mem_singleton.1 hmem] at hf
    exact hpin (mem_flatMap.2 ⟨_, hf, mem_singleton.2 rfl⟩)

theorem addTc (h : Sound s) (srv : Sa) (hq : q ∈ s.live) (hfree : ∀ t ∈ s.tcs, q ∉ t.ql) (hpin : q ∉ Dns.pins s.stack) :
    Sound { s with tcs := s.tcs ++ [⟨s.next, srv, true, false, true, [q], 0, []⟩], next := s.next + 1 } := by
  refine h.withHeap rfl rfl (h.heap.addTc hq hfree) fun f hf hok => ?_
  cases f with
  | handler | closeWalk => exact hok
  | failWalk | tcpRecv =>
    obtain ⟨t', ht', rest⟩ := hok
    exact ⟨t', mem_append_left _ ht', rest⟩
  | sendTcp p caller err =>
    refine ⟨hok.1, forall_mem_append.2 ⟨hok.2, forall_mem_singleton.2 fun hmem => ?_⟩⟩
    rw [mem_singleton.1 hmem] at hf
    exact hpin (mem_flatMap.2 ⟨_, hf, mem_singleton.2 rfl⟩)

theorem addQuery (h : Sound s) {x : Query} (hx : x.adr = s.next) :
    Sound { s with queries := s.queries ++ [x], next := s.next + 1 } := by
  have hlive : ∀ p ∈ s.live, p ∈ (s.queries ++ [x]).map Query.adr := fun p hp => by
    rw [map_append]
    exact mem_append_left _ hp
  refine h.withHeap rfl rfl (h.heap.addQuery hx) fun f hf hok => ?_
  cases f with
  | handler p =>
    obtain ⟨y, hy, rest⟩ := hok
    exact ⟨y, mem_append_left _ hy, rest⟩
  | closeWalk i le => exact fun p hp => hlive p (hok p hp)
  | failWalk => exact hok
  | sendTcp p caller err => exact ⟨hlive p hok.1, hok.2⟩
  | tcpRecv => exact hok

theorem next (h : Sound s) : Sound { s with next := s.next + 1 } := h.withHeap rfl rfl h.heap.next fun _ _ hok => hok

end Sound

end BareRTC.Dns
