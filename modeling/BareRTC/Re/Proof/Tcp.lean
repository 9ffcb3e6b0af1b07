import BareRTC.Re.Tcp

/-!
# What a TCP connection has sent

The bytes that the socket has taken and those in the queue are together the buffers of the calls
that returned 0 (`Inv`). A call that writes a part of its buffer and cannot queue the rest returns
an error, and the part is on its way (`torn`).
-/

namespace BareRTC.Tcp

open List

structure Sends (ok : Bytes) (tc : Conn) : Prop where
  sock : tc.sock <+: ok
  txqsz : tc.txqsz = tc.sendq.flatten.length

def Fits (tc : Conn) : Event → Prop
  | .send mb n fail => tc.fdc → tc.sendq = [] → ∀ k ∈ n, 0 < k → k < mb.length →
      tc.txqsz + (mb.length - k) ≤ tc.txqszMax ∧ fail = none
  | .writable _ => True

structure Inv (ok : Bytes) (tc : Conn) : Prop where
  bytes : tc.sock ++ tc.sendq.flatten = ok
  txqsz : tc.txqsz = tc.sendq.flatten.length

variable {tc : Conn} {ok mb : Bytes} {n : Option Nat} {fail : Option Errno} {e : Event}

theorem Inv.sends (h : Inv ok tc) : Sends ok tc := ⟨⟨_, h.bytes⟩, h.txqsz⟩

def Kept (ok mb : Bytes) (r : Option Errno × Conn) : Prop := Inv (ok ++ if r.1 = none then mb else []) r.2

section
variable (h : Inv ok tc)
include h

theorem Inv.failed {err : Errno} : Kept ok mb (some err, tc) := by simpa [Kept] using h

theorem Inv.enqueue (mb : Bytes) (fail : Option Errno) : Kept ok mb (enqueue tc mb fail) := by
  unfold Tcp.enqueue
  split
  · exact h.failed
  cases fail with
  | some err => exact h.failed
  | none => exact ⟨by simp [← h.bytes], by simp [h.txqsz]⟩

theorem Inv.dequeue : Inv ok (dequeue tc n) := by
  unfold Tcp.dequeue
  split
  · next mb q n hq =>
    obtain ⟨hbytes, htxqsz⟩ := h
    rw [hq, flatten_cons] at hbytes htxqsz
    have hrest : (if mb.length ≤ n then q else mb.drop n :: q).flatten = mb.drop n ++ q.flatten := by
      split
      · simp [drop_eq_nil_of_le ‹_›]
      · rfl
    refine ⟨?_, ?_⟩
    · rw [hrest, append_assoc, ← append_assoc (mb.take n), take_append_drop, hbytes]
    · simp only [hrest, htxqsz, length_append, length_take, length_drop]
      omega
  · exact h

theorem Inv.tcpSend (hfits : Fits tc (.send mb n fail)) : Kept ok mb (tcpSend tc mb n fail) := by
  unfold Tcp.tcpSend
  split_ifs with hfdc hmb hq
  · exact h.failed
  · exact h.failed
  · exact h.enqueue mb fail
  cases n with
  | none => exact h.enqueue mb fail
  | some k =>
    have hq : tc.sendq = [] := by simpa using hq
    have hpart : Inv (ok ++ mb.take k) { tc with sock := tc.sock ++ mb.take k } := ⟨by simp [← h.bytes, hq], h.txqsz⟩
    dsimp only
    split
    · next hlt =>
      have hqueued := hpart.enqueue (mb.drop k) fail
      unfold Kept at hqueued ⊢
      split_ifs at hqueued ⊢ with herr
      · rwa [append_assoc, take_append_drop] at hqueued
      -- only a call that wrote nothing fails
      have hzero : k = 0 := by
        by_contra hk
        obtain ⟨hle, rfl⟩ := hfits (by simpa using hfdc) hq k rfl (by omega) hlt
        simp [Tcp.enqueue, Nat.not_lt.2 hle] at herr
      simpa [hzero] using hqueued
    · next hlt =>
      rw [take_of_length_le (Nat.not_lt.1 hlt)] at hpart ⊢
      exact hpart

theorem Inv.step (hfits : Fits tc e) : Inv (ok ++ (step tc e).2) (step tc e).1 := by
  cases e with
  | writable n => simpa [Tcp.step] using h.dequeue
  | send mb n fail => exact h.tcpSend hfits

theorem torn (hfits : ¬ Fits tc e) : ¬ (step tc e).1.sock <+: ok ++ (step tc e).2 := by
  cases e with
  | writable n => exact absurd trivial hfits
  | send mb n fail =>
    simp only [Fits, not_forall] at hfits
    obtain ⟨hfdc, hq, k, hk, hpos, hlt, hno⟩ := hfits
    obtain rfl : n = some k := hk
    have herr : ∃ err, Tcp.enqueue { tc with sock := tc.sock ++ mb.take k } (mb.drop k) fail =
        (some err, { tc with sock := tc.sock ++ mb.take k }) := by
      unfold Tcp.enqueue
      split
      · exact ⟨_, rfl⟩
      · next hle =>
        cases fail with
        | some err => exact ⟨err, rfl⟩
        | none => exact absurd ⟨by simpa using hle, rfl⟩ hno
    obtain ⟨err, herr⟩ := herr
    have hmb : mb ≠ [] := by
      rintro rfl
      cases hlt
    have hsend : tcpSend tc mb (some k) fail = (some err, { tc with sock := tc.sock ++ mb.take k }) := by
      rw [tcpSend, if_neg (by simp [hfdc]), if_neg hmb, if_neg (by simp [hq])]
      exact (if_pos hlt).trans herr
    intro hprefix
    have hlen := hprefix.length_le
    simp only [step, hsend, ← h.bytes, hq, flatten_nil, append_nil, length_append, length_take, reduceCtorEq,
      if_false] at hlen
    omega

end

theorem sends_iff_along {evs : List Event} : ∀ {ok : Bytes} {tc : Conn}, Inv ok tc →
    ((∀ es, es <+: evs → Sends (ok ++ (outs step tc es).flatten) (exec step tc es)) ↔ Along step Fits tc evs) := by
  induction evs with
  | nil =>
    intro ok tc h
    simpa [Along] using h.sends
  | cons e evs ih =>
    intro ok tc h
    rw [Along]
    constructor
    · intro hsends
      have hfits : Fits tc e := by
        by_contra hfits
        have hone := hsends [e] (by simp)
        exact torn h hfits (by simpa using hone.sock)
      refine ⟨hfits, (ih (h.step hfits)).1 fun es hes => ?_⟩
      simpa using hsends (e :: es) (cons_prefix_cons.2 ⟨rfl, hes⟩)
    rintro ⟨hfits, hrest⟩ es hes
    cases es with
    | nil => simpa using h.sends
    | cons e' es =>
      obtain ⟨rfl, htail⟩ := cons_prefix_cons.1 hes
      simpa using (ih (h.step hfits)).2 hrest es htail

/-- **What was sent.** The socket gets what was accepted, in order, and the size of the queue is
right, in every state of a run, if and only if no call writes a part of its buffer and cannot queue
the rest. -/
theorem sends_accepted_iff (txqszMax : Nat) (evs : List Event) :
    (∀ es, es <+: evs → Sends (outs step { txqszMax } es).flatten (exec step { txqszMax } es)) ↔
      Along step Fits { txqszMax } evs := by
  have hnew : Inv [] { txqszMax } := ⟨rfl, rfl⟩
  simpa using sends_iff_along hnew

/-- One of five bytes is written, and the queue has room for three. -/
theorem torn_send : ¬ Sends (outs step { txqszMax := 3 } [.send [1, 2, 3, 4, 5] (some 1) none]).flatten
    (exec step { txqszMax := 3 } [.send [1, 2, 3, 4, 5] (some 1) none]) := fun h => by
  have hsock := h.sock
  revert hsock
  decide

end BareRTC.Tcp
