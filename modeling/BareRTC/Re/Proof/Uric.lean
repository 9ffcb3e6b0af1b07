import BareRTC.Re.Uric

/-!
# Escaping and unescaping

A byte below `0x80` is read as it was. For one above, eight hexadecimal digits are printed, of which
only the first two are read as a byte.
-/

namespace BareRTC.Re

open List

inductive Component
  | user | password | param | header

namespace Component

def escape : Component → Bytes → Bytes
  | user => uriUserEscape
  | password => uriPasswordEscape
  | param => uriParamEscape
  | header => uriHeaderEscape

def unescape : Component → Bytes → Except Errno Bytes
  | user => uriUserUnescape
  | password => uriPasswordUnescape
  | param => uriParamUnescape
  | header => uriHeaderUnescape

def handler : Component → UInt8 → Bool
  | user => isUser
  | password => isPassword
  | param => isParamchar
  | header => isHvalue

theorem escape_eq (k : Component) : k.escape = compEscape k.handler := by cases k <;> rfl

theorem unescape_eq (k : Component) : k.unescape = compUnescape k.handler := by cases k <;> rfl

def extra : Component → Bytes
  | user => ascii "&=+$,;?/"
  | password => ascii "&=+$,"
  | param => ascii "[]/:&+$"
  | header => ascii "[]/?:+$"

def Allows (k : Component) (c : UInt8) : Prop :=
  chr '0' ≤ c ∧ c ≤ chr '9' ∨ chr 'A' ≤ c ∧ c ≤ chr 'Z' ∨ chr 'a' ≤ c ∧ c ≤ chr 'z' ∨ c ∈ ascii "-_.!~*'()" ∨ c ∈ k.extra

instance (k : Component) (c : UInt8) : Decidable (k.Allows c) := by
  unfold Allows
  infer_instance

theorem handler_iff (k : Component) (c : UInt8) : k.handler c ↔ k.Allows c := by
  cases k <;> revert c <;> exact forall_uint8 (by decide +kernel)

end Component

def IsHex (c : UInt8) : Prop := chr '0' ≤ c ∧ c ≤ chr '9' ∨ chr 'A' ≤ c ∧ c ≤ chr 'F'

instance (c : UInt8) : Decidable (IsHex c) := by
  unfold IsHex
  infer_instance

inductive Escaped (k : Component) : Bytes → Prop
  | nil : Escaped k []
  | char {c : UInt8} {t : Bytes} (hc : k.Allows c) (ht : Escaped k t) : Escaped k (c :: t)
  | triplet {hi lo : UInt8} {t : Bytes} (hhi : IsHex hi) (hlo : IsHex lo) (ht : Escaped k t) :
    Escaped k (chr '%' :: hi :: lo :: t)

variable {k : Component} (c : UInt8)

theorem Escaped.append {a b : Bytes} (ha : Escaped k a) (hb : Escaped k b) : Escaped k (a ++ b) := by
  induction ha with
  | nil => exact hb
  | char hc _ ih => exact .char hc ih
  | triplet hhi hlo _ ih => exact .triplet hhi hlo ih

theorem allows_of_isHex : ∀ (c : UInt8) (_ : IsHex c), k.Allows c := by
  cases k <;> exact forall_uint8 (by decide +kernel)

/-! ## One byte -/

def reads (c : UInt8) : Bytes := if c < 0x80 then [c] else 0xff :: (percentHex c).drop 3

theorem percentHex_ascii : ∀ c : UInt8, c < 0x80 → ∃ hi lo, percentHex c = [chr '%', hi, lo] ∧ IsHex hi ∧ IsHex lo ∧
    chHex hi <<< 4 ||| chHex lo = c :=
  fun c hc => ⟨(percentHex c).getD 1 0, (percentHex c).getD 2 0, by
    revert c
    exact forall_uint8 (by decide +kernel)⟩

theorem percentHex_negative (hc : ¬ c < 0x80) : ∃ w, percentHex c = chr '%' :: chr 'F' :: chr 'F' :: w ∧
    reads c = 0xff :: w ∧ (∀ d ∈ w, IsHex d) ∧ w.length = 6 := by
  refine ⟨(percentHex c).drop 3, ?_, if_neg hc, ?_⟩ <;> revert c <;> exact forall_uint8 (by decide +kernel)

theorem not_handler_percent : k.handler (chr '%') = false := by cases k <;> rfl

theorem lt_of_handler : ∀ (c : UInt8) (_ : k.handler c), c < 0x80 := by
  cases k <;> exact forall_uint8 (by decide +kernel)

variable {t : Bytes}

theorem compUnescape_char {c : UInt8} (hc : k.handler c) :
    compUnescape k.handler (c :: t) = (compUnescape k.handler t).map (c :: ·) := by
  rw [compUnescape.eq_def]
  exact if_pos hc

theorem compUnescape_allowed {w : Bytes} (hw : ∀ c ∈ w, k.handler c) :
    compUnescape k.handler (w ++ t) = (compUnescape k.handler t).map (w ++ ·) := by
  induction w with
  | nil => exact (Except.map_id ▸ rfl : compUnescape k.handler t = (compUnescape k.handler t).map id)
  | cons c w ih =>
    rw [cons_append, compUnescape_char (hw c mem_cons_self), ih fun d hd => hw d (mem_cons_of_mem _ hd)]
    cases compUnescape k.handler t <;> rfl

theorem compUnescape_triplet (hi lo : UInt8) (t : Bytes) :
    compUnescape k.handler (chr '%' :: hi :: lo :: t) =
      (compUnescape k.handler t).map ((chHex hi <<< 4 ||| chHex lo) :: ·) := by
  rw [compUnescape, not_handler_percent]
  rfl

theorem compUnescape_percentHex (t : Bytes) :
    compUnescape k.handler (percentHex c ++ t) = (compUnescape k.handler t).map (reads c ++ ·) := by
  by_cases hc : c < 0x80
  · obtain ⟨hi, lo, htext, -, -, hval⟩ := percentHex_ascii c hc
    rw [htext, reads, if_pos hc]
    exact (compUnescape_triplet hi lo t).trans (by rw [hval]; rfl)
  obtain ⟨w, htext, hreads, hhex, -⟩ := percentHex_negative c hc
  have hhandler : ∀ d ∈ w, k.handler d := fun d hd => (k.handler_iff d).2 (allows_of_isHex d (hhex d hd))
  rw [htext, hreads]
  refine (compUnescape_triplet _ _ (w ++ t)).trans ?_
  rw [compUnescape_allowed hhandler]
  cases compUnescape k.handler t <;> rfl

theorem escaped_of_isHex {w : Bytes} (hw : ∀ d ∈ w, IsHex d) : Escaped k w := by
  induction w with
  | nil => exact .nil
  | cons d w ih =>
    exact .char (allows_of_isHex d (hw d mem_cons_self)) (ih fun d hd => hw d (mem_cons_of_mem _ hd))

theorem escaped_percentHex : Escaped k (percentHex c) := by
  by_cases hc : c < 0x80
  · obtain ⟨hi, lo, htext, hhi, hlo, -⟩ := percentHex_ascii c hc
    rw [htext]
    exact .triplet hhi hlo .nil
  obtain ⟨w, htext, -, hhex, -⟩ := percentHex_negative c hc
  rw [htext]
  exact .triplet (by decide) (by decide) (escaped_of_isHex hhex)

/-! ## A component -/

variable {b : Bytes}

theorem escaped_escape : Escaped k (k.escape b) := by
  rw [k.escape_eq]
  induction b with
  | nil => exact .nil
  | cons c b ih =>
    rw [compEscape, flatMap_cons]
    refine Escaped.append ?_ ih
    split
    · rename_i hc
      exact .char ((k.handler_iff c).1 hc) .nil
    · exact escaped_percentHex c

theorem unescape_escape : k.unescape (k.escape b) = .ok (b.flatMap reads) := by
  rw [k.escape_eq, k.unescape_eq]
  induction b with
  | nil => rfl
  | cons c b ih =>
    unfold compEscape at ih ⊢
    rw [flatMap_cons, flatMap_cons]
    split
    · rename_i hc
      rw [singleton_append, compUnescape_char hc, ih, reads, if_pos (lt_of_handler c hc)]
      rfl
    · rw [compUnescape_percentHex, ih]
      rfl

theorem length_reads : (reads c).length = if c < 0x80 then 1 else 7 := by
  split
  · rename_i hc
    rw [reads, if_pos hc]
    rfl
  rename_i hc
  obtain ⟨w, -, hreads, -, hlen⟩ := percentHex_negative c hc
  rw [hreads, length_cons, hlen]

theorem flatMap_reads_eq_iff : b.flatMap reads = b ↔ ∀ c ∈ b, c < 0x80 := by
  have hle : ∀ b : Bytes, b.length ≤ (b.flatMap reads).length := by
    intro b
    induction b with
    | nil => exact Nat.le_refl _
    | cons c b ih =>
      rw [flatMap_cons, length_append, length_cons, length_reads]
      split <;> omega
  induction b with
  | nil => simp
  | cons c b ih =>
    rw [flatMap_cons, forall_mem_cons]
    by_cases hc : c < 0x80
    · simp [reads, hc, ih]
    refine ⟨fun h => ?_, fun h => absurd h.1 hc⟩
    -- the text read is longer than what was escaped
    have hlen := congrArg List.length h
    have := hle b
    rw [length_append, length_cons, length_reads, if_neg hc] at hlen
    omega

/-- For each component and all bytes, unescaping gives back what was escaped, and the escaped text
has only characters of the component and triplets, exactly if no byte is `0x80` or above. -/
theorem uri_roundTrips_iff (k : Component) (b : Bytes) :
    (k.unescape (k.escape b) = .ok b ∧ Escaped k (k.escape b)) ↔ ∀ c ∈ b, c < 0x80 := by
  rw [unescape_escape, Except.ok.injEq, flatMap_reads_eq_iff]
  exact and_iff_left (escaped_escape)

theorem uri_user_negative : uriUserEscape [0xe9] = ascii "%FFFFFFE9" ∧
    uriUserUnescape (uriUserEscape [0xe9]) = .ok (0xff :: ascii "FFFFE9") :=
  ⟨by decide +kernel, by rw [show uriUserEscape [0xe9] = ascii "%FFFFFFE9" by decide +kernel]; decide +kernel⟩

end BareRTC.Re
