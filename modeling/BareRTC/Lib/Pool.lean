import Mathlib.Tactic

/-!
# Records in a table of slots

Records are allocated one after the other and told apart by a serial number. A table holds pointers
to them; storing a pointer forgets the one before, and releasing a record leaves the pointers to it
in the table, dangling. `Pool.WF` is what allocation alone guarantees: a serial number is used
once, and in one slot.
-/

namespace BareRTC

structure Cell (ρ : Type) where
  serial : ℕ
  val : ρ
  deriving DecidableEq, Repr

structure Pool (κ ρ : Type) where
  slot : κ → Option (Cell ρ)
  next : ℕ
  freed : List ℕ

namespace Pool

variable {κ ρ : Type} {p : Pool κ ρ} {k k' : κ} {c : Cell ρ}

def empty : Pool κ ρ := ⟨fun _ => none, 0, []⟩

def new (p : Pool κ ρ) (v : ρ) : Cell ρ := ⟨p.next, v⟩

def put [DecidableEq κ] (p : Pool κ ρ) (k : κ) (v : ρ) : Pool κ ρ :=
  { p with slot := Function.update p.slot k (some (p.new v)), next := p.next + 1 }

def free (p : Pool κ ρ) (c : Cell ρ) : Pool κ ρ := { p with freed := c.serial :: p.freed }

def Live (p : Pool κ ρ) (c : Cell ρ) : Prop := c.serial ∉ p.freed

instance (p : Pool κ ρ) (c : Cell ρ) : Decidable (p.Live c) := inferInstanceAs (Decidable (_ ∉ _))

structure WF (p : Pool κ ρ) : Prop where
  slot_lt : ∀ k c, p.slot k = some c → c.serial < p.next
  freed_lt : ∀ n ∈ p.freed, n < p.next
  inj : ∀ k k' c c', p.slot k = some c → p.slot k' = some c' → c.serial = c'.serial → k = k'

theorem WF.empty : (empty : Pool κ ρ).WF where
  slot_lt := nofun
  freed_lt := nofun
  inj := nofun

theorem WF.free (h : p.WF) (hc : p.slot k = some c) : (p.free c).WF where
  slot_lt := h.slot_lt
  freed_lt n hn := by
    rcases List.mem_cons.1 hn with rfl | hn
    · exact h.slot_lt k c hc
    · exact h.freed_lt n hn
  inj := h.inj

theorem WF.live_free (h : p.WF) {c' : Cell ρ} (hc : p.slot k = some c)
    (hc' : p.slot k' = some c') (hk : k' ≠ k) (hl : p.Live c') : (p.free c).Live c' := by
  intro hm
  rcases List.mem_cons.1 hm with he | hm
  · exact hk (h.inj _ _ _ _ hc' hc he)
  · exact hl hm

theorem not_live_free : ¬ (p.free c).Live c := fun h => h List.mem_cons_self

theorem WF.live_new (h : p.WF) (v : ρ) : p.Live (p.new v) := fun hm => absurd (h.freed_lt _ hm) (lt_irrefl _)

/-! ## Allocating -/

variable [DecidableEq κ]

variable {v : ρ}

theorem put_slot (p : Pool κ ρ) (k : κ) : (p.put k v).slot k = some (p.new v) := Function.update_self k _ p.slot

theorem put_slot_ne (p : Pool κ ρ) (h : k' ≠ k) : (p.put k v).slot k' = p.slot k' :=
  Function.update_of_ne h _ p.slot

theorem put_slot_cases {v : ρ}
    (h : (p.put k v).slot k' = some c) : k' = k ∧ c = p.new v ∨ k' ≠ k ∧ p.slot k' = some c := by
  by_cases hk : k' = k
  · subst hk
    rw [put_slot] at h
    exact .inl ⟨rfl, (Option.some.inj h).symm⟩
  · rw [put_slot_ne p hk] at h
    exact .inr ⟨hk, h⟩

theorem WF.put (h : p.WF) : (p.put k v).WF where
  slot_lt k' c hc := by
    rcases put_slot_cases hc with ⟨-, rfl⟩ | ⟨-, hc⟩
    · exact Nat.lt_succ_self _
    · exact (h.slot_lt k' c hc).trans (Nat.lt_succ_self _)
  freed_lt n hn := (h.freed_lt n hn).trans (Nat.lt_succ_self _)
  inj k1 k2 c1 c2 h1 h2 he := by
    rcases put_slot_cases h1 with ⟨hk1, hc1⟩ | ⟨-, h1'⟩
    · rcases put_slot_cases h2 with ⟨hk2, -⟩ | ⟨-, h2'⟩
      · rw [hk1, hk2]
      · rw [hc1] at he
        exact absurd he (ne_of_gt (h.slot_lt _ _ h2'))
    rcases put_slot_cases h2 with ⟨-, hc2⟩ | ⟨-, h2'⟩
    · rw [hc2] at he
      exact absurd he (ne_of_lt (h.slot_lt _ _ h1'))
    · exact h.inj _ _ _ _ h1' h2' he

end Pool

end BareRTC
