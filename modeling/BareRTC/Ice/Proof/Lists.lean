import BareRTC.Ice.Check

/-!
# The lists of candidate pairs

`list_add_sorted` puts a pair in its place and `ice_list_unique` drops elements. A list in the order
of the pair priority stays so.
-/

namespace BareRTC.Ice

open List

def Sorted (pairs : Nat → Pair) (l : List Nat) : Prop := l.Pairwise fun a b => (pairs b).pprio ≤ (pairs a).pprio

instance (pairs : Nat → Pair) (l : List Nat) : Decidable (Sorted pairs l) :=
  inferInstanceAs (Decidable (l.Pairwise fun a b => (pairs b).pprio ≤ (pairs a).pprio))

variable {pairs : Nat → Pair} {cp : Nat} {l : List Nat}

theorem slot_perm : (listAddSorted.slot pairs cp l).Perm (cp :: l) := by
  induction l with
  | nil => exact .refl _
  | cons cp0 l ih =>
    unfold listAddSorted.slot
    split
    · exact .refl _
    · exact (ih.cons cp0).trans (.swap cp cp0 l)

theorem listAddSorted_perm : (listAddSorted pairs cp l).Perm (cp :: l) :=
  (reverse_perm _).trans ((slot_perm).trans (l.reverse_perm.cons cp))

@[simp] theorem mem_listAddSorted {x : Nat} : x ∈ listAddSorted pairs cp l ↔ x = cp ∨ x ∈ l := by
  rw [(listAddSorted_perm).mem_iff, mem_cons]

theorem slot_pairwise (h : l.Pairwise fun a b => (pairs a).pprio ≤ (pairs b).pprio) :
    (listAddSorted.slot pairs cp l).Pairwise fun a b => (pairs a).pprio ≤ (pairs b).pprio := by
  induction h with
  | nil => exact pairwise_singleton _ cp
  | @cons cp0 l hle hl ih =>
    unfold listAddSorted.slot
    split
    · rename_i hlt
      refine .cons (fun x hx => ?_) (.cons hle hl)
      rcases mem_cons.1 hx with rfl | hx
      · exact UInt64.le_of_lt hlt
      · exact UInt64.le_trans (UInt64.le_of_lt hlt) (hle x hx)
    rename_i hnot
    refine .cons (fun x hx => ?_) ih
    rcases mem_cons.1 ((slot_perm).mem_iff.1 hx) with rfl | hx
    · exact UInt64.not_lt.1 hnot
    · exact hle x hx

theorem sorted_listAddSorted (h : Sorted pairs l) : Sorted pairs (listAddSorted pairs cp l) := by
  have hrev : (listAddSorted.slot pairs cp l.reverse).Pairwise fun a b => (pairs a).pprio ≤ (pairs b).pprio :=
    slot_pairwise (pairwise_reverse.2 h)
  exact pairwise_reverse.2 hrev

theorem Sorted.congr {pairs' : Nat → Pair} (h : Sorted pairs l)
    (he : ∀ cp ∈ l, (pairs' cp).pprio = (pairs cp).pprio) : Sorted pairs' l :=
  List.Pairwise.imp_of_mem (fun ha hb hab => by rwa [he _ ha, he _ hb]) h

/-! ## `ice_list_unique` -/

variable {α : Type} {uh : α → α → Drop}

theorem scan_sublist (a : α) {l : List α} : (iceListUnique.scan uh a l).2.Sublist l := by
  induction l with
  | nil => exact .refl _
  | cons b l ih =>
    unfold iceListUnique.scan
    split
    · exact ih.cons_cons b
    · exact .refl _
    · exact ih.cons b

theorem unique_loop_sublist {n : Nat} (l : List α) : (iceListUnique.loop uh n l).Sublist l := by
  induction n generalizing l with
  | zero => cases l <;> exact .refl _
  | succ n ih =>
    cases l with
    | nil => exact .refl _
    | cons a l =>
      unfold iceListUnique.loop
      split
      · exact ((ih _).trans (scan_sublist a)).cons a
      · exact ((ih _).trans (scan_sublist a)).cons_cons a

theorem iceListUnique_sublist {l : List α} : (iceListUnique uh l).Sublist l := unique_loop_sublist l

end BareRTC.Ice
