import Mathlib.Data.List.Basic

/-!
# Sorting a list (`re/src/list/list.c`)

`list_sort` walks through the list and moves an element on past those that belong before it, and
walks again as long as it has moved any.
-/

namespace BareRTC

open List

variable {α : Type}

/-- One walk of `list_sort` that has come to `a`: the list from there, and if an element is
moved. -/
def listSort.walk (sh : α → α → Bool) (a : α) : List α → List α × Bool
  | [] => ([a], false)
  | b :: l =>
    if sh a b then (a :: (walk sh b l).1, (walk sh b l).2) else (b :: (walk sh a l).1, true)

/-- The walks of `list_sort`; a list is in order after as many as it has elements. -/
def listSort.retry (sh : α → α → Bool) : Nat → List α → List α
  | n + 1, a :: l => if (walk sh a l).2 then retry sh n (walk sh a l).1 else (walk sh a l).1
  | _, l => l

def listSort (sh : α → α → Bool) (l : List α) : List α := listSort.retry sh (l.length + 1) l

variable {sh : α → α → Bool}

theorem walk_perm (a : α) (l : List α) : (listSort.walk sh a l).1.Perm (a :: l) := by
  induction l generalizing a with
  | nil => exact .refl _
  | cons b l ih =>
    unfold listSort.walk
    split
    · exact (ih b).cons a
    · exact ((ih a).cons b).trans (.swap a b l)

theorem retry_perm (n : Nat) (l : List α) : (listSort.retry sh n l).Perm l := by
  induction n generalizing l with
  | zero => cases l <;> exact .refl _
  | succ n ih =>
    cases l with
    | nil => exact .refl _
    | cons a l =>
      unfold listSort.retry
      split
      · exact (ih _).trans (walk_perm a l)
      · exact walk_perm a l

theorem listSort_perm (l : List α) : (listSort sh l).Perm l := retry_perm _ l

theorem walk_of_pairwise (a : α) {l : List α} (h : (a :: l).Pairwise fun a b => sh a b) :
    listSort.walk sh a l = (a :: l, false) := by
  induction l generalizing a with
  | nil => rfl
  | cons b l ih =>
    obtain ⟨hab, hl⟩ := pairwise_cons.1 h
    rw [listSort.walk, if_pos (hab b mem_cons_self), ih b hl]

theorem listSort_of_pairwise {l : List α} (h : l.Pairwise fun a b => sh a b) : listSort sh l = l := by
  cases l with
  | nil => rfl
  | cons a l => simp [listSort, listSort.retry, walk_of_pairwise a h]

end BareRTC
