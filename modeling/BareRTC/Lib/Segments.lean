import BareRTC.Lib.Run

/-!
# Items of a stream that comes in segments

A sender writes items one after the other; a receiver gets the stream in segments, deals with the
items that are whole and keeps the part of an item that is not. What the receiver has to do with one
segment is said by the items in it (`Deals`), and gives what it does with any segments of any stream
(`Deals.run`).
-/

namespace BareRTC.Segments

open List

variable {ι α : Type}

def Partial (enc : ι → List α) (w : List α) : List ι → Prop
  | [] => w = []
  | f :: _ => w <+: enc f ∧ w.length < (enc f).length

/-- **Every beginning of a stream** is some items and a part of the next. -/
theorem exists_cut {enc : ι → List α} : ∀ (fs : List ι) (w : List α), w <+: fs.flatMap enc →
    ∃ done todo part, fs = done ++ todo ∧ w = done.flatMap enc ++ part ∧ Partial enc part todo
  | [], w, hw => ⟨[], [], w, rfl, rfl, List.prefix_nil.1 hw⟩
  | f :: fs, w, hw => by
    rw [flatMap_cons] at hw
    rcases Nat.lt_or_ge w.length (enc f).length with hlt | hge
    · exact ⟨[], f :: fs, w, rfl, rfl, List.prefix_of_prefix_length_le hw ( List.prefix_append _ _) hlt.le, hlt⟩
    obtain ⟨w', rfl⟩ := List.prefix_of_prefix_length_le ( List.prefix_append (enc f) (fs.flatMap enc)) hw hge
    obtain ⟨done, todo, part, rfl, rfl, hpart⟩ := exists_cut fs w' ((List.prefix_append_right_inj _).1 hw)
    exact ⟨f :: done, todo, part, rfl, by rw [flatMap_cons, append_assoc], hpart⟩

variable {σ ε ο β : Type} (enc : ι → List α) (step : σ → ε → σ × List ο) (bytes : ε → List α)
  (Keeps : σ → List α → Prop) (Ok : σ → ε → Prop) (view : ο → List β) (emit : ι → List β)

def Deals : Prop :=
  ∀ (s : σ) (e : ε) (kept : List α) (done : List ι) (part : List α) (todo : List ι), Keeps s kept → Ok s e →
    kept ++ bytes e = done.flatMap enc ++ part → Partial enc part todo →
    (step s e).2.flatMap view = done.flatMap emit ∧ Keeps (step s e).1 part

variable {enc step bytes Keeps Ok view emit}

/-- **Any segments** of a stream: the items that are whole so far have been dealt with, and the rest
is kept. -/
theorem Deals.run (h : Deals enc step bytes Keeps Ok view emit) : ∀ (es : List ε) (s : σ) (fs : List ι) (kept : List α),
    Keeps s kept → Partial enc kept fs → kept ++ es.flatMap bytes <+: fs.flatMap enc → Along step Ok s es →
    ∃ done todo part, fs = done ++ todo ∧ kept ++ es.flatMap bytes = done.flatMap enc ++ part ∧
      Partial enc part todo ∧ (outs step s es).flatten.flatMap view = done.flatMap emit ∧ Keeps (exec step s es) part
  | [], s, fs, kept, hkept, hpart, _, _ => ⟨[], fs, kept, rfl, by simp, hpart, rfl, hkept⟩
  | e :: es, s, fs, kept, hkept, _, hpre, hok => by
    rw [flatMap_cons, ← append_assoc] at hpre ⊢
    obtain ⟨done, todo, part, rfl, hcut, hpart⟩ := exists_cut fs (kept ++ bytes e)
      (( List.prefix_append _ _).trans hpre)
    obtain ⟨hview, hkept'⟩ := h s e kept done part todo hkept hok.1 hcut hpart
    rw [hcut, append_assoc, flatMap_append, List.prefix_append_right_inj] at hpre
    obtain ⟨done', todo', part', rfl, hcut', hpart', hview', hkept''⟩ := h.run es _ todo part hkept' hpart hpre hok.2
    refine ⟨done ++ done', todo', part', by rw [append_assoc], ?_, hpart', ?_, hkept''⟩
    · rw [hcut, append_assoc, hcut', flatMap_append, append_assoc]
    · rw [outs_cons, flatten_cons, flatMap_append, hview, hview', flatMap_append]

theorem eq_of_whole {fs done todo : List ι} {part : List α} (hfs : fs = done ++ todo)
    (hcut : fs.flatMap enc = done.flatMap enc ++ part) (hpart : Partial enc part todo) : done = fs ∧ part = [] := by
  subst hfs
  rw [flatMap_append, append_cancel_left_eq] at hcut
  cases todo with
  | nil => exact ⟨(append_nil _).symm, hpart⟩
  | cons f todo =>
    obtain ⟨-, hlt⟩ := hpart
    rw [← hcut, flatMap_cons, length_append] at hlt
    omega

end BareRTC.Segments
