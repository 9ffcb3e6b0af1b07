import Mathlib.Data.List.Basic

/-!
# Tables whose entries expire

An entry that has expired stays in the table until a look-up finds it. `findLive` finds the first
entry that matches and removes it if it has expired; `modifyFirst` writes to the entry that a
look-up found.
-/

namespace BareRTC

open List

variable {α : Type}

def findLive (expires : α → Nat) (now : Nat) (p : α → Bool) (l : List α) : Option α × List α :=
  match l.find? p with
  | none => (none, l)
  | some a => if expires a < now then (none, l.eraseP p) else (some a, l)

def modifyFirst (p : α → Bool) (f : α → α) : List α → List α
  | [] => []
  | a :: l => if p a then f a :: l else a :: modifyFirst p f l

def live (expires : α → Nat) (now : Nat) (l : List α) : List α := l.filter fun a => now ≤ expires a

variable {expires : α → Nat} {now : Nat} {p : α → Bool} {l l' : List α} {a : α}

/-- The entry that is found splits the table at the place where it is removed. -/
theorem eraseP_of_find (h : l.find? p = some a) : ∃ as bs, l = as ++ a :: bs ∧ l.eraseP p = as ++ bs := by
  obtain ⟨hp, as, bs, rfl, has⟩ := find?_eq_some_iff_append.1 h
  refine ⟨as, bs, rfl, ?_⟩
  rw [eraseP_append_right _ (fun b hb => by simpa using has b hb), eraseP_cons_of_pos hp]

theorem erase_eq_eraseP_of_find [DecidableEq α] (h : l.find? p = some a) :
    l.erase a = l.eraseP p := by
  obtain ⟨hp, as, bs, rfl, has⟩ := find?_eq_some_iff_append.1 h
  have hout : a ∉ as := fun ha => by simpa [hp] using has a ha
  rw [erase_append_right _ hout, erase_cons_head,
    eraseP_append_right _ fun b hb => by simpa using has b hb, eraseP_cons_of_pos hp]

theorem filter_eraseP_self : (l.eraseP p).filter p = (l.filter p).drop 1 := by
  induction l with
  | nil => rfl
  | cons a l ih => by_cases ha : p a <;> simp [ha, ih]

theorem filter_eraseP {q : α → Bool} (h : ∀ a, p a → q a = false) :
    (l.eraseP p).filter q = l.filter q := by
  induction l with
  | nil => rfl
  | cons a l ih =>
    by_cases ha : p a
    · simp [ha, h a ha]
    · simp [ha, filter_cons, ih]

theorem perm_eraseP_of_find (h : l.find? p = some a) : l.Perm (l.eraseP p ++ [a]) := by
  obtain ⟨as, bs, hl, he⟩ := eraseP_of_find h
  rw [he, hl, append_assoc]
  exact List.Perm.append_left as (perm_append_singleton a bs).symm

/-- The entry that is found goes to the end of another list. -/
theorem perm_move_of_find (h : l.find? p = some a) (l' : List α) : (l.eraseP p ++ (l' ++ [a])).Perm (l ++ l') :=
  calc (l.eraseP p ++ (l' ++ [a])).Perm (l.eraseP p ++ ([a] ++ l')) := perm_append_comm.append_left _
    _ = (l.eraseP p ++ [a]) ++ l' := (append_assoc _ _ _).symm
    List.Perm _ (l ++ l') := (perm_eraseP_of_find h).symm.append_right l'

/-- An entry that a look-up finds is in the table, has not expired, and the table is as before. -/
theorem findLive_eq_some (h : findLive expires now p l = (some a, l')) :
    l.find? p = some a ∧ now ≤ expires a ∧ l' = l := by
  unfold findLive at h
  split at h
  · cases h
  rename_i b hb
  split at h
  · cases h
  rename_i hlive
  cases h
  exact ⟨hb, by omega, rfl⟩

/-- The look-up finds an entry until the first one that matches expires. -/
theorem findLive_until {time : Nat} :
    (∀ now ≤ time, (findLive expires now p l).1.isSome) ↔
      ∃ a, l.find? p = some a ∧ time ≤ expires a := by
  unfold findLive
  cases l.find? p with
  | none => simpa using ⟨0, Nat.zero_le _⟩
  | some a =>
    have hsome (now : Nat) : ((if expires a < now then (none, l.eraseP p) else (some a, l)).1.isSome =
        true) ↔ now ≤ expires a := by
      split <;> simp <;> omega
    simp only [hsome]
    exact ⟨fun h => ⟨a, rfl, h time (Nat.le_refl _)⟩, fun ⟨b, hb, hle⟩ now hnow => by cases hb; omega⟩

/-- A look-up that finds nothing has removed the first entry that matches, if there is one. -/
theorem findLive_eq_none (h : findLive expires now p l = (none, l')) : l' = l.eraseP p := by
  unfold findLive at h
  split at h
  · rename_i hnone
    cases h
    exact (eraseP_of_forall_not (by simpa using hnone)).symm
  split at h
  · cases h
    rfl
  · cases h

theorem findLive_sublist : (findLive expires now p l).2.Sublist l := by
  unfold findLive
  split
  · exact List.Sublist.refl l
  split
  · exact eraseP_sublist
  · exact List.Sublist.refl l

theorem live_findLive : live expires now (findLive expires now p l).2 = live expires now l := by
  unfold findLive
  split
  · rfl
  rename_i a ha
  split
  · rename_i hexp
    obtain ⟨as, bs, hl, he⟩ := eraseP_of_find ha
    rw [he, hl]
    simp [live, filter_append, Nat.not_le.2 hexp]
  · rfl

/-- After the entry with a key is removed, no entry has the key. -/
theorem not_mem_eraseP {κ : Type} [DecidableEq κ] {key : α → κ} {k : κ} (h : (l.map key).Nodup) :
    k ∉ (l.eraseP fun a => key a = k).map key := by
  induction l with
  | nil => exact not_mem_nil
  | cons a l ih =>
    rw [map_cons, nodup_cons] at h
    by_cases ha : key a = k
    · rw [eraseP_cons_of_pos (by simpa using ha), ← ha]
      exact h.1
    · rw [eraseP_cons_of_neg (by simpa using ha), map_cons, mem_cons, not_or]
      exact ⟨Ne.symm ha, ih h.2⟩

theorem map_modifyFirst {κ : Type} {key : α → κ} {f : α → α} (hf : ∀ a, key (f a) = key a) :
    (modifyFirst p f l).map key = l.map key := by
  induction l with
  | nil => rfl
  | cons a l ih =>
    rw [modifyFirst]
    split
    · rw [map_cons, map_cons, hf]
    · rw [map_cons, map_cons, ih]

/-- What is in the table after a write was there before, or is what was written over the entry that
is found. -/
theorem mem_modifyFirst {f : α → α} {b : α} (h : b ∈ modifyFirst p f l) :
    b ∈ l ∨ ∃ a, l.find? p = some a ∧ b = f a := by
  induction l with
  | nil => cases h
  | cons c l ih =>
    rw [modifyFirst] at h
    split at h
    · rename_i hc
      rcases mem_cons.1 h with rfl | h
      · exact .inr ⟨c, find?_cons_of_pos hc, rfl⟩
      · exact .inl (mem_cons_of_mem c h)
    rename_i hc
    rcases mem_cons.1 h with rfl | h
    · exact .inl mem_cons_self
    rcases ih h with h | ⟨a, ha, rfl⟩
    · exact .inl (mem_cons_of_mem c h)
    · exact .inr ⟨a, (find?_cons_of_neg hc).trans ha, rfl⟩

end BareRTC
