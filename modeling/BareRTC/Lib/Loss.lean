import BareRTC.Lib.Bytes
import BareRTC.Lib.Run

/-!
# Pieces of data in numbered packets, over a channel that loses some

`cut` is the loop that sends a buffer in pieces. What the packets sent so far spell is the state of
a machine that reads them all, `along_cut` what one buffer does to it. The channel keeps the order
and loses fewer than `65535` packets in a row: `outs_lossy` is the invariant rule for a receiver
that sees the rest, and `seq_eq` says when the number it waits for tells that nothing was lost.
-/

namespace BareRTC

open List

variable {α σ π ε ο : Type}

def cut (n : Nat) (hn : 0 < n) (f l : Bool → Bytes → π) (start : Bool) (buf : Bytes) : List π :=
  if n < buf.length then f start (buf.take n) :: cut n hn f l false (buf.drop n) else [l start buf]
termination_by buf.length
decreasing_by simp; omega

/-- A machine that starts on the first piece from `g` and adds every other has spelt `g` and the
buffer, and only at the last piece. -/
theorem along_cut {step : Bytes → π → Bytes × ο} {Ok : Bytes → π → Prop} {g : Bytes → Bytes} {T : Bytes} {n : Nat}
    {hn : 0 < n} {f l : Bool → Bytes → π} (hf : ∀ a st b, (step a (f st b)).1 = (if st then g a else a) ++ b)
    (hl : ∀ a st b, (step a (l st b)).1 = (if st then g a else a) ++ b) (hokf : ∀ a st b, b.length ≤ n → Ok a (f st b))
    (hokl : ∀ a st b, b.length ≤ n → (step a (l st b)).1 = T → Ok a (l st b)) (a : Bytes) (st : Bool) (buf : Bytes)
    (hT : (if st then g a else a) ++ buf = T) :
    Along step Ok a (cut n hn f l st buf) ∧ exec step a (cut n hn f l st buf) = T := by
  fun_induction cut n hn f l st buf generalizing a with
  | case1 st buf h ih =>
    have hnext := ih (step a (f st (buf.take n))).1 (by rw [hf]; simpa using hT)
    exact ⟨⟨hokf a st _ (length_take_le n buf), hnext.1⟩, hnext.2⟩
  | case2 st buf h =>
    have hlast := (hl a st buf).trans hT
    exact ⟨⟨hokl a st buf (by omega) hlast, trivial⟩, hlast⟩

def Lossy (len : Nat) : Nat → List (Nat × ε) → Prop
  | _, [] => True
  | n, (j, _) :: js => n ≤ j ∧ j < n + 65535 ∧ j < len ∧ Lossy len (j + 1) js

def arrivals (s0 : UInt16) (ps : List π) (js : List (Nat × ε)) : List (UInt16 × π × ε) :=
  js.filterMap fun (j, e) => ps[j]?.map (s0 + .ofNat j, ·, e)

theorem arrivals_cons {s0 : UInt16} {ps : List π} {p : π} {j : Nat} (h : ps[j]? = some p) (e : ε) (js : List (Nat × ε)) :
    arrivals s0 ps ((j, e) :: js) = (s0 + .ofNat j, p, e) :: arrivals s0 ps js := by
  simp [arrivals, h]

theorem seq_eq {s0 seq : UInt16} {n j : Nat} (hseq : seq + 1 = s0 + .ofNat n) (hn : n ≤ j) (hj : j < n + 65535) :
    (s0 + .ofNat j - seq).toInt16 = 1 ↔ j = n := by
  have hone : (s0 + .ofNat j - seq).toInt16 = 1 ↔ s0 + .ofNat j - seq = 1 :=
    ⟨congrArg Int16.toUInt16, congrArg UInt16.toInt16⟩
  have h0 := s0.toNat_lt
  have h1 := seq.toNat_lt
  rw [← UInt16.toNat_inj] at hseq
  rw [hone, ← UInt16.toNat_inj]
  simp only [UInt16.toNat_add, UInt16.toNat_sub, UInt16.toNat_ofNat', UInt16.reduceToNat] at hseq ⊢
  omega

theorem seq_succ (s0 : UInt16) (j : Nat) : s0 + .ofNat j + 1 = s0 + .ofNat (j + 1) := by
  rw [UInt16.ofNat_add, ← UInt16.add_assoc]
  rfl

/-- **Invariant rule** for a receiver: `Inv a n` holds once the last of the first `n` packets has
arrived, after which `spell` stands at `a`. -/
theorem outs_lossy {spell : α → π → α × Unit} {Sent : α → π → Prop} {step : σ → UInt16 × π × ε → σ × ο}
    {Ok : σ → UInt16 × π × ε → Prop} (Inv : α → Nat → σ → Prop) {P : ο → Prop} {s0 : UInt16} {a0 : α} {ps : List π}
    (hsent : Along spell Sent a0 ps) (hstep : ∀ a b n j p e s, n ≤ j → j < n + 65535 → (j = n → b = a) → Sent b p →
      Inv a n s → Ok s (s0 + .ofNat j, p, e) →
      Inv (spell b p).1 (j + 1) (step s (s0 + .ofNat j, p, e)).1 ∧ P (step s (s0 + .ofNat j, p, e)).2) :
    ∀ (js : List (Nat × ε)) (n : Nat) (s : σ), Lossy ps.length n js → Inv (exec spell a0 (ps.take n)) n s →
      Along step Ok s (arrivals s0 ps js) → ∀ o ∈ outs step s (arrivals s0 ps js), P o
  | [], _, _, _, _, _, _, ho => absurd ho not_mem_nil
  | (j, e) :: js, n, s, ⟨hn, hj, hlen, hjs⟩, hs, ha, o, ho => by
    rw [arrivals_cons (getElem?_eq_getElem hlen)] at ha ho
    have hp : Sent (exec spell a0 (ps.take j)) ps[j] := by
      rw [← take_append_drop j ps, along_append, drop_eq_getElem_cons hlen] at hsent
      exact hsent.2.1
    obtain ⟨hinv, hout⟩ := hstep _ _ n j ps[j] e s hn hj (fun h => by rw [h]) hp hs ha.1
    rcases mem_cons.1 ho with rfl | ho
    · exact hout
    · refine outs_lossy Inv hsent hstep js _ _ hjs ?_ ha.2 o ho
      rwa [← take_append_getElem hlen, exec_append]

end BareRTC
