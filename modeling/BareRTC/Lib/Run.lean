import Mathlib.Data.List.ReduceOption
import Mathlib.Tactic

/-!
# Runs of a machine

A machine is a step function `σ → ι → σ × ο`: the state after an input and what the step did
visibly. `exec` and `outs` are the state and the outputs of a run, `Along` says that every step
of a run meets a condition on the state before it and its input. `exec_inv` is the induction
every invariant of a run goes through.
-/

namespace BareRTC

open List

variable {σ ι ο : Type}

def exec (step : σ → ι → σ × ο) : σ → List ι → σ
  | s, [] => s
  | s, i :: is => exec step (step s i).1 is

def outs (step : σ → ι → σ × ο) : σ → List ι → List ο
  | _, [] => []
  | s, i :: is => (step s i).2 :: outs step (step s i).1 is

def Along (step : σ → ι → σ × ο) (Ok : σ → ι → Prop) : σ → List ι → Prop
  | _, [] => True
  | s, i :: is => Ok s i ∧ Along step Ok (step s i).1 is

instance decidableAlong (step : σ → ι → σ × ο) (Ok : σ → ι → Prop) [∀ s i, Decidable (Ok s i)] :
    ∀ s is, Decidable (Along step Ok s is)
  | _, [] => .isTrue trivial
  | s, i :: is =>
    have := decidableAlong step Ok (step s i).1 is
    inferInstanceAs (Decidable (Ok s i ∧ Along step Ok (step s i).1 is))

variable {step : σ → ι → σ × ο} {Ok Q P : σ → ι → Prop} {Inv : σ → Prop} {s : σ} {is : List ι}

variable {i : ι}

@[simp] theorem exec_nil : exec step s [] = s := rfl
@[simp] theorem exec_cons : exec step s (i :: is) = exec step (step s i).1 is := rfl
@[simp] theorem outs_nil : outs step s [] = [] := rfl
@[simp] theorem outs_cons :
    outs step s (i :: is) = (step s i).2 :: outs step (step s i).1 is := rfl

theorem exec_append (s : σ) : ∀ is js : List ι,
    exec step s (is ++ js) = exec step (exec step s is) js
  | [], _ => rfl
  | i :: is, js => exec_append (step s i).1 is js

theorem outs_append (s : σ) : ∀ is js : List ι,
    outs step s (is ++ js) = outs step s is ++ outs step (exec step s is) js
  | [], _ => rfl
  | i :: is, js => by simp [outs_append (step s i).1 is js]

theorem along_append (s : σ) : ∀ is js : List ι,
    Along step Ok s (is ++ js) ↔ Along step Ok s is ∧ Along step Ok (exec step s is) js
  | [], _ => by simp [Along]
  | i :: is, js => by simp [Along, along_append (step s i).1 is js, and_assoc]

theorem along_and : ∀ (is : List ι) (s : σ), Along step Ok s is → Along step Q s is →
    Along step (fun s i => Ok s i ∧ Q s i) s is
  | [], _, _, _ => trivial
  | _ :: is, _, h, hq => ⟨⟨h.1, hq.1⟩, along_and is _ h.2 hq.2⟩

theorem along_of_forall (is : List ι) (h : ∀ i ∈ is, ∀ s, Ok s i) : ∀ s, Along step Ok s is := by
  induction is with
  | nil => exact fun _ => trivial
  | cons i is ih =>
    exact fun s => ⟨h i mem_cons_self s, ih (fun j hj => h j (mem_cons_of_mem _ hj)) _⟩

theorem along_flatMap {κ : Type} {f : κ → List ι} : ∀ l : List κ, (∀ x ∈ l, ∀ s, Along step Ok s (f x)) →
    ∀ s, Along step Ok s (l.flatMap f)
  | [], _, _ => trivial
  | x :: l, h, s => by
    rw [flatMap_cons, along_append]
    exact ⟨h x mem_cons_self s, along_flatMap l (fun y hy => h y (mem_cons_of_mem x hy)) _⟩

/-- **Invariant rule**: what every good step keeps holds at the end of a run of good steps. -/
theorem exec_inv (hstep : ∀ s i, Inv s → Ok s i → Inv (step s i).1) :
    ∀ (is : List ι) (s : σ), Inv s → Along step Ok s is → Inv (exec step s is)
  | [], _, h, _ => h
  | i :: is, s, h, ha => exec_inv hstep is _ (hstep s i h ha.1) ha.2

theorem exec_inv_all (Inv : σ → Prop) (hstep : ∀ s i, Inv s → Inv (step s i).1) :
    ∀ (is : List ι) (s : σ), Inv s → Inv (exec step s is)
  | [], _, h => h
  | i :: is, s, h => exec_inv_all Inv hstep is _ (hstep s i h)

theorem along_of_inv (hstep : ∀ s i, Inv s → Ok s i → Inv (step s i).1) (hq : ∀ s i, Inv s → Ok s i → Q s i) :
    ∀ (is : List ι) (s : σ), Inv s → Along step Ok s is → Along step Q s is
  | [], _, _, _ => trivial
  | i :: is, s, h, ha =>
    ⟨hq s i h ha.1, along_of_inv hstep hq is _ (hstep s i h ha.1) ha.2⟩

/-- **Output rule**: what an invariant gives of what every step shows, it gives of all that a run
shows. -/
theorem outs_inv {P : ο → Prop} (hinv : ∀ s i, Inv s → Inv (step s i).1)
    (hout : ∀ s i, Inv s → P (step s i).2) : ∀ (is : List ι) (s : σ), Inv s → ∀ o ∈ outs step s is, P o
  | [], _, _, _, ho => absurd ho not_mem_nil
  | i :: is, s, h, o, ho => by
    rcases mem_cons.1 ho with rfl | ho
    · exact hout s i h
    · exact outs_inv hinv hout is _ (hinv s i h) o ho

/-- **Budget rule**: if no step costs more than it takes from the budget, no run costs more than the
budget at its start. -/
theorem outs_cost_le {cost : ο → Nat} {budget : σ → Nat} (hinv : ∀ s i, Inv s → Inv (step s i).1)
    (hcost : ∀ s i, Inv s → cost (step s i).2 + budget (step s i).1 ≤ budget s) :
    ∀ (is : List ι) (s : σ), Inv s → ((outs step s is).map cost).sum ≤ budget s
  | [], _, _ => Nat.zero_le _
  | i :: is, s, h => by
    have hhead := hcost s i h
    have htail := outs_cost_le hinv hcost is _ (hinv s i h)
    rw [outs_cons, map_cons, sum_cons]
    omega

/-- Two conditions that an invariant of the good steps makes the same are met along the same
runs. -/
theorem along_iff_of_ok (hstep : ∀ s i, Inv s → Ok s i → Inv (step s i).1) (hq : ∀ s i, Inv s → (Q s i ↔ Ok s i)) :
    ∀ (is : List ι) (s : σ), Inv s → (Along step Q s is ↔ Along step Ok s is)
  | [], _, _ => Iff.rfl
  | i :: is, s, h => by
    rw [Along, Along, hq s i h]
    exact and_congr_right fun ho => along_iff_of_ok hstep hq is _ (hstep s i h ho)

/-- **Once rule**: if what a step shows blocks itself and good steps unblock nothing, no run of good
steps shows anything twice. -/
theorem outs_flatMap_nodup {β : Type} (g : ο → List β) (Ok : σ → ι → Prop) (Inv : σ → Prop)
    (Blocked : σ → β → Prop) (hinv : ∀ s i, Inv s → Ok s i → Inv (step s i).1)
    (hkeep : ∀ s i b, Inv s → Ok s i → Blocked s b → Blocked (step s i).1 b)
    (hout : ∀ s i, Inv s → Ok s i → (g (step s i).2).Nodup ∧
      ∀ b ∈ g (step s i).2, ¬ Blocked s b ∧ Blocked (step s i).1 b) :
    ∀ (is : List ι) (s : σ), Inv s → Along step Ok s is →
      ((outs step s is).flatMap g).Nodup ∧ ∀ b, Blocked s b → b ∉ (outs step s is).flatMap g
  | [], _, _, _ => ⟨nodup_nil, nofun⟩
  | i :: is, s, hs, ha => by
    obtain ⟨hnd, hnot⟩ := outs_flatMap_nodup g Ok Inv Blocked hinv hkeep hout is _ (hinv s i hs ha.1) ha.2
    obtain ⟨hnd', hblk⟩ := hout s i hs ha.1
    rw [outs_cons, flatMap_cons]
    refine ⟨nodup_append'.2 ⟨hnd', hnd, fun b hb => hnot b (hblk b hb).2⟩, fun b hb hm => ?_⟩
    rcases mem_append.1 hm with hm | hm
    · exact (hblk b hm).1 hb
    · exact hnot b (hkeep s i b hs ha.1 hb) hm

theorem outs_nodup {step : σ → ι → σ × Option ο} (Ok : σ → ι → Prop) (Inv : σ → Prop)
    (Blocked : σ → ο → Prop) (hinv : ∀ s i, Inv s → Ok s i → Inv (step s i).1)
    (hkeep : ∀ s i o, Inv s → Ok s i → Blocked s o → Blocked (step s i).1 o)
    (hout : ∀ s i o, Inv s → Ok s i → (step s i).2 = some o →
      ¬ Blocked s o ∧ Blocked (step s i).1 o) (is : List ι) (s : σ) (hs : Inv s)
    (ha : Along step Ok s is) : (outs step s is).reduceOption.Nodup := by
  have hflat : (outs step s is).reduceOption = (outs step s is).flatMap Option.toList := by
    rw [List.reduceOption, filterMap_eq_flatMap_toList]
    rfl
  rw [hflat]
  refine (outs_flatMap_nodup Option.toList Ok Inv Blocked hinv hkeep (fun s i h ho => ?_) is s hs ha).1
  cases hi : (step s i).2 with
  | none => exact ⟨nodup_nil, nofun⟩
  | some o =>
    refine ⟨nodup_singleton o, fun b hb => ?_⟩
    obtain rfl : b = o := mem_singleton.1 hb
    exact hout s i b h ho hi

/-! ## What has happened -/

def Once (step : σ → ι → σ × ο) (P : σ → ι → Prop) (s : σ) (is : List ι) : Prop :=
  ∃ pre i post, is = pre ++ i :: post ∧ P (exec step s pre) i

theorem Once.append (h : Once step P s is) (js : List ι) : Once step P s (is ++ js) := by
  obtain ⟨pre, i, post, rfl, hp⟩ := h
  exact ⟨pre, i, post ++ js, by simp, hp⟩

theorem Once.last {i : ι} (h : P (exec step s is) i) : Once step P s (is ++ [i]) := ⟨is, i, [], rfl, h⟩

theorem Once.mono (h : Once step P s is) (hpq : ∀ s i, P s i → Q s i) : Once step Q s is := by
  obtain ⟨pre, i, post, rfl, hp⟩ := h
  exact ⟨pre, i, post, rfl, hpq _ _ hp⟩

theorem once_append_singleton {i : ι} : Once step P s (is ++ [i]) ↔ Once step P s is ∨ P (exec step s is) i := by
  constructor
  · rintro ⟨pre, j, post, heq, hp⟩
    rcases eq_nil_or_concat post with rfl | ⟨post, k, rfl⟩
    · obtain ⟨rfl, hij⟩ := append_inj' heq rfl
      obtain rfl : i = j := head_eq_of_cons_eq hij
      exact .inr hp
    · rw [concat_eq_append, ← cons_append, ← append_assoc] at heq
      exact .inl ⟨pre, j, post, append_inj_left' heq rfl, hp⟩
  · rintro (hp | hp)
    · exact hp.append [i]
    · exact .last hp

/-- **History rule**: an invariant that speaks of the run so far. -/
theorem exec_history {Inv : List ι → σ → Prop} (h0 : Inv [] s)
    (hstep : ∀ is i, Inv is (exec step s is) → Inv (is ++ [i]) (step (exec step s is) i).1) (is : List ι) :
    Inv is (exec step s is) := by
  induction is using List.reverseRecOn with
  | nil => exact h0
  | append_singleton is i ih =>
    rw [exec_append]
    exact hstep is i ih

/-! ## Sequences of inputs -/

def stateAt (step : σ → ι → σ × ο) (s : σ) (i : ℕ → ι) : ℕ → σ
  | 0 => s
  | k + 1 => (step (stateAt step s i k) (i k)).1

def outAt (step : σ → ι → σ × ο) (s : σ) (i : ℕ → ι) (k : ℕ) : ο := (step (stateAt step s i k) (i k)).2

/-- The invariant rule for the first `n` inputs of a sequence; the invariant may speak of the
input that comes next. -/
theorem stateAt_inv {Inv : ℕ → σ → Prop} {i : ℕ → ι} {n : ℕ} (h0 : 0 < n → Inv 0 s)
    (hstep : ∀ k, k + 1 < n → ∀ s, Inv k s → Inv (k + 1) (step s (i k)).1) :
    ∀ k < n, Inv k (stateAt step s i k)
  | 0, hk => h0 hk
  | k + 1, hk => hstep k hk _ (stateAt_inv h0 hstep k (by omega))

end BareRTC
