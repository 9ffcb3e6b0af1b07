import Mathlib.Tactic

/-!
# Programs that fail and keep their state

A C function that changes its arguments in place and returns an error code is an `EStateM`
program: on every exit, error or not, there is a state. `bind_eq_ok` and `bind_eq_error` take a
run apart at its sequencing points, `bind_of_ok` and `bind_of_error` put one together.
`Steps v P x` says that `P` relates what the view `v` sees of the state before and after `x`, on
**every** exit; `Keeps v x`, that it sees no change.
-/

namespace BareRTC

open EStateM (Result)

variable {ε σ α β : Type} {x : EStateM ε σ α} {f : α → EStateM ε σ β} {s s' : σ}

def Result.state : Result ε σ α → σ
  | .ok _ s => s
  | .error _ s => s

def Result.err : Result ε σ α → Option ε
  | .ok _ _ => none
  | .error e _ => some e

@[simp] theorem Result.state_ok (a : α) : Result.state (.ok a s : Result ε σ α) = s := rfl

/-! ## Sequencing -/

theorem bind_eq_ok {b : β} : (x >>= f) s = .ok b s' ↔ ∃ a s1, x s = .ok a s1 ∧ f a s1 = .ok b s' := by
  show EStateM.bind x f s = _ ↔ _
  unfold EStateM.bind
  cases x s <;> simp

theorem bind_eq_error {e : ε} :
    (x >>= f) s = .error e s' ↔ x s = .error e s' ∨ ∃ a s1, x s = .ok a s1 ∧ f a s1 = .error e s' := by
  show EStateM.bind x f s = _ ↔ _
  unfold EStateM.bind
  cases x s <;> simp

theorem bind_of_ok {a : α} {s1 : σ} (h : x s = .ok a s1) : (x >>= f) s = f a s1 := by
  show EStateM.bind x f s = _
  simp [EStateM.bind, h]

theorem bind_of_error {e : ε} {s1 : σ} (h : x s = .error e s1) : (x >>= f) s = .error e s1 := by
  show EStateM.bind x f s = _
  simp [EStateM.bind, h]

@[simp] theorem pure_apply {a : α} : (pure a : EStateM ε σ α) s = .ok a s := rfl
@[simp] theorem throw_apply (e : ε) : (throw e : EStateM ε σ α) s = .error e s := rfl
@[simp] theorem get_apply (s : σ) : (get : EStateM ε σ σ) s = .ok s s := rfl
@[simp] theorem modify_apply {g : σ → σ} : (modify g : EStateM ε σ PUnit) s = .ok () (g s) := rfl

theorem get_bind {f : σ → EStateM ε σ β} : ((get : EStateM ε σ σ) >>= f) s = f s s := rfl

/-! ## Frames -/

section
variable {τ : Type} {v : σ → τ} {P : τ → τ → Prop} {a : α} {e : ε} {I : τ → Prop}

def Steps (v : σ → τ) (P : τ → τ → Prop) (x : EStateM ε σ α) : Prop := ∀ s, P (v s) (v (Result.state (x s)))

def Keeps (v : σ → τ) (x : EStateM ε σ α) : Prop := Steps v (fun t t' => t' = t) x

theorem Steps.ok (h : Steps v P x) (hx : x s = .ok a s') : P (v s) (v s') := by
  have := h s
  rwa [hx] at this

theorem Steps.error (h : Steps v P x) (hx : x s = .error e s') : P (v s) (v s') := by
  have := h s
  rwa [hx] at this

theorem Keeps.ok (h : Keeps v x) (hx : x s = .ok a s') : v s' = v s := Steps.ok (P := fun t t' => t' = t) h hx

theorem Keeps.error (h : Keeps v x) (hx : x s = .error e s') : v s' = v s := Steps.error (P := fun t t' => t' = t) h hx

theorem Steps.bind (htrans : ∀ {t1 t2 t3}, P t1 t2 → P t2 t3 → P t1 t3) (hx : Steps v P x)
    (hf : ∀ a, Steps v P (f a)) : Steps v P (x >>= f) := by
  intro s
  cases h : x s with
  | ok a s1 =>
    rw [bind_of_ok h]
    exact htrans (hx.ok h) (hf a s1)
  | error e s1 =>
    rw [bind_of_error h]
    exact hx.error h

/-- What keeps `v` may come before the one step that matters .. -/
theorem Keeps.bind_left (hx : Keeps v x) (hP : ∀ t, P t t) (hf : ∀ a, Steps v P (f a)) : Steps v P (x >>= f) := by
  intro s
  cases h : x s with
  | ok a s1 =>
    rw [bind_of_ok h, ← hx.ok h]
    exact hf a s1
  | error e s1 =>
    rw [bind_of_error h, ← hx.error h]
    exact hP _

/-- .. and after it. -/
theorem Steps.bind_right (hx : Steps v P x) (hf : ∀ a, Keeps v (f a)) : Steps v P (x >>= f) := by
  intro s
  cases h : x s with
  | ok a s1 =>
    rw [bind_of_ok h, show v (Result.state (f a s1)) = v s1 from hf a s1]
    exact hx.ok h
  | error e s1 =>
    rw [bind_of_error h]
    exact hx.error h

theorem Keeps.bind (hx : Keeps v x) (hf : ∀ a, Keeps v (f a)) : Keeps v (x >>= f) := Steps.bind_right hx hf

def FailKeeps (I : τ → Prop) (v : σ → τ) (x : EStateM ε σ α) : Prop :=
  ∀ s e s', I (v s) → x s = .error e s' → v s' = v s

theorem Keeps.failKeeps (hx : Keeps v x) : FailKeeps I v x := fun _ _ _ _ h => hx.error h

theorem Keeps.bind_failKeeps (hx : Keeps v x) (hf : ∀ a, FailKeeps I v (f a)) : FailKeeps I v (x >>= f) := by
  intro s e s' hI h
  rcases bind_eq_error.1 h with h | ⟨a, s1, h1, h2⟩
  · exact hx.error h
  · rw [hf a s1 e s' ((hx.ok h1).symm ▸ hI) h2, hx.ok h1]

theorem Keeps.pure : Keeps v (pure a : EStateM ε σ α) := fun _ => rfl

theorem Keeps.get : Keeps v (get : EStateM ε σ σ) := fun _ => rfl

end

/-! ## Safety -/

variable {R : σ → σ → Prop} {E : ε → Prop}

def Safe (R : σ → σ → Prop) (E : ε → Prop) (x : EStateM ε σ α) : Prop :=
  ∀ s, R s (Result.state (x s)) ∧ ∀ e ∈ Result.err (x s), E e

theorem Safe.ok {a : α} (h : Safe R E x) (hx : x s = .ok a s') : R s s' := by
  have := (h s).1
  rwa [hx] at this

theorem Safe.error {e : ε} (h : Safe R E x) (hx : x s = .error e s') : R s s' ∧ E e := by
  have := h s
  rw [hx] at this
  exact ⟨this.1, this.2 e rfl⟩

theorem Safe.modify {g : σ → σ} (hg : ∀ s, R s (g s)) : Safe R E (modify g : EStateM ε σ PUnit) :=
  fun s => ⟨hg s, nofun⟩

theorem Safe.bind (htrans : ∀ {s1 s2 s3}, R s1 s2 → R s2 s3 → R s1 s3) (hx : Safe R E x)
    (hf : ∀ a, Safe R E (f a)) : Safe R E (x >>= f) := by
  intro s
  cases h : x s with
  | ok a s1 =>
    rw [bind_of_ok h]
    exact ⟨htrans (hx.ok h) (hf a s1).1, (hf a s1).2⟩
  | error e s1 =>
    rw [bind_of_error h]
    obtain ⟨hr, he⟩ := hx.error h
    exact ⟨hr, fun e' h' => by cases h'; exact he⟩

end BareRTC
