import BareRTC.Lib.Json
import Mathlib.Data.List.TakeWhile

/-!
# How JSON texts are read

The reading of a concatenation is the reading of its parts one after the other (`run_append`), and
tokens are never taken back (`run_grows`). `run_of_lex`: what is read by itself is read the same
before a delimiter. `isPlain_of_read` says when a string between quotes is read as itself, whatever
comes after it, and `lex_decimalInt` that a number in decimal is.
-/

namespace BareRTC.Json

open List

/-! ## Reading a concatenation -/

variable {a : Bytes}

theorem Utf8.run_append (q : Utf8) (b : Bytes) : q.run (a ++ b) = (q.run a).bind (·.run b) := by
  induction a generalizing q with
  | nil => rfl
  | cons c a ih =>
    rw [cons_append, Utf8.run, Utf8.run]
    cases q.step c with
    | none => rfl
    | some q' => exact ih q'

theorem Utf8.step_ascii {c : UInt8} (h : c < 0x80) (q : Utf8) :
    q.step c = if q = .start then some .start else none := by
  have hlow : ∀ low high : UInt8, 0x80 ≤ low → ∀ next, within low high c next = none := by
    intro low high hl next
    rw [within, if_neg]
    intro hc
    exact absurd (UInt8.lt_of_lt_of_le h hl) (UInt8.not_lt.2 hc.1)
  cases q with
  | start => rw [Utf8.step, if_pos h, if_pos rfl]
  | _ => exact hlow _ _ (by decide) _

theorem isUtf8_append {c : UInt8} (h : c < 0x80) (b : Bytes) :
    isUtf8 (a ++ c :: b) = (isUtf8 a && isUtf8 (c :: b)) := by
  unfold isUtf8
  rw [Utf8.run_append]
  cases ha : Utf8.start.run a with
  | none => rfl
  | some q =>
    rw [Option.bind_some, Utf8.run, Utf8.run, Utf8.step_ascii h, Utf8.step_ascii h]
    by_cases hq : q = .start
    · simp [hq]
    · simp [hq]

theorem run_append (st : Lex) (b : Bytes) : run st (a ++ b) = (run st a).bind (run · b) := by
  induction a generalizing st with
  | nil => rfl
  | cons c a ih =>
    rw [cons_append, run, run]
    cases step st c with
    | none => rfl
    | some st' => exact ih st'

/-! ### The tokens before do not matter -/

def Lex.after (toks : List Token) (st : Lex) : Lex := ⟨toks ++ st.toks, st.mode⟩

section
variable (toks : List Token)

theorem flush_after {st : Lex} : flush (st.after toks) = (flush st).map (Lex.after toks) := by
  obtain ⟨ts, m⟩ := st
  cases m with
  | num | word => simp [flush, Lex.after, Function.comp_def]
  | _ => rfl

theorem normalStep_after {ts : List Token} (c : UInt8) :
    normalStep (toks ++ ts) c = (normalStep ts c).map (Lex.after toks) := by
  unfold normalStep
  by_cases hw : isWs c
  · rw [if_pos hw, if_pos hw]
    rfl
  rw [if_neg hw, if_neg hw]
  cases punct c with
  | none =>
    dsimp only
    split_ifs <;> rfl
  | some t => simp [Lex.after]

theorem step_after (st : Lex) (c : UInt8) : step (st.after toks) c = (step st c).map (Lex.after toks) := by
  have hflush : ((flush (st.after toks)).bind fun st => normalStep st.toks c) =
      ((flush st).bind fun st => normalStep st.toks c).map (Lex.after toks) := by
    rw [flush_after]
    cases flush st with
    | none => rfl
    | some st' => exact normalStep_after toks c
  obtain ⟨ts, m⟩ := st
  cases m with
  | normal => exact normalStep_after toks c
  | num | word =>
    simp only [step, Lex.after] at hflush ⊢
    split_ifs
    · rfl
    · exact hflush
  | str acc =>
    simp only [step, Lex.after]
    split_ifs
    · simp [Lex.after]
    · simp [Lex.after, Function.comp_def]
  | _ => simp [step, Lex.after, Function.comp_def]

theorem run_after (st : Lex) (b : Bytes) : run (st.after toks) b = (run st b).map (Lex.after toks) := by
  induction b generalizing st with
  | nil => rfl
  | cons c b ih =>
    rw [run, run, step_after]
    cases step st c with
    | none => rfl
    | some st' => exact ih st'

end

def isDelim (c : UInt8) : Bool := !isNum c && !isLetter c

variable {st st' : Lex} {acc s : Bytes} {k : Nat}

theorem step_flush {c : UInt8} (h : flush st = some st') (hc : isDelim c) :
    step st c = normalStep st'.toks c := by
  rw [isDelim, Bool.and_eq_true, Bool.not_eq_true', Bool.not_eq_true'] at hc
  obtain ⟨ts, m⟩ := st
  cases m with
  | normal =>
    cases h
    rfl
  | num acc =>
    simp only [step]
    rw [if_neg (Bool.eq_false_iff.1 hc.1), h, Option.bind_some]
  | word acc =>
    simp only [step]
    rw [if_neg (Bool.eq_false_iff.1 hc.2), h, Option.bind_some]
  | _ => cases h

/-- **A text that is read by itself** is read the same before a delimiter. -/
theorem run_of_lex {a : Bytes} {ts : List Token} (h : lex a = some ts) {c : UInt8} (hc : isDelim c)
    (toks : List Token) (b : Bytes) :
    run ⟨toks, .normal⟩ (a ++ c :: b) = run ⟨toks ++ ts, .normal⟩ (c :: b) := by
  obtain ⟨st, hr, hf⟩ := Option.bind_eq_some_iff.1 h
  obtain ⟨st', hfl, rfl⟩ := Option.map_eq_some_iff.1 hf
  have hafter := run_after toks ⟨[], .normal⟩ a
  rw [hr, Lex.after, append_nil, Option.map_some] at hafter
  have hflush : flush (st.after toks) = some (st'.after toks) := by
    rw [flush_after, hfl, Option.map_some]
  rw [run_append, hafter, Option.bind_some, run, run, step_flush hflush hc]
  rfl

/-! ### Tokens are never taken back -/

theorem grows_of_after {toks : List Token} {m : Mode} {o : Option Lex} {f : Lex → Option Lex}
    (hafter : f ((⟨[], m⟩ : Lex).after toks) = o.map (Lex.after toks)) (h : f ⟨toks, m⟩ = some st') :
    toks <+: st'.toks := by
  rw [Lex.after, append_nil, h] at hafter
  obtain ⟨st, -, rfl⟩ := Option.map_eq_some_iff.1 hafter.symm
  exact List.prefix_append _ _

theorem flush_grows (h : flush st = some st') : st.toks <+: st'.toks :=
  grows_of_after (flush_after st.toks) h

theorem run_grows {b : Bytes} (h : run st b = some st') : st.toks <+: st'.toks :=
  grows_of_after (f := (run · b)) (run_after st.toks ⟨[], st.mode⟩ b) h

theorem run_finish_grows {b : Bytes} {ts : List Token} (h : (run st b).bind finish = some ts) : st.toks <+: ts := by
  obtain ⟨st1, hr, hf⟩ := Option.bind_eq_some_iff.1 h
  obtain ⟨st2, hfl, rfl⟩ := Option.map_eq_some_iff.1 hf
  exact (run_grows hr).trans (flush_grows hfl)

/-! ## Strings -/

def isPlain (s : Bytes) : Bool := s.all fun c => decide (32 ≤ c) && c != 34 && c != 92

namespace Mode

def inStr : Mode → Bool
  | .str _ | .esc _ | .hex _ _ _ | .pair _ _ | .pairEsc _ _ => true
  | _ => false

def text : Mode → Bytes
  | .str acc | .esc acc | .hex acc _ _ | .pair acc _ | .pairEsc acc _ => acc
  | _ => []

def size : Mode → Nat
  | .hex acc _ ds => acc.length + ds.length
  | m => m.text.length

def strRun : Mode → Bytes → Option Mode
  | m, [] => some m
  | m, c :: b => (m.strStep c).bind (·.strRun b)

variable {m m' : Mode} {c : UInt8} {b : Bytes}

theorem codeUnit_ok {hi : Option Nat} {u : Nat} (h : codeUnit acc hi u = some m) :
    m.inStr ∧ acc <+: m.text ∧ m.size ≤ acc.length + 4 := by
  have hlen : ∀ n, (utf8Bytes n).length ≤ 4 := by
    intro n
    unfold utf8Bytes
    split_ifs <;> simp
  unfold codeUnit at h
  split at h
  · split_ifs at h
    · cases h
      exact ⟨rfl, List.prefix_rfl, by simp [size, text]⟩
    · cases h
      refine ⟨rfl, List.prefix_append _ _, ?_⟩
      simpa [size, text] using hlen u
  split_ifs at h
  cases h
  refine ⟨rfl, List.prefix_append _ _, ?_⟩
  simpa [size, text] using hlen _

theorem strStep_ok (h : m.strStep c = some m') : m'.inStr ∧ m.text <+: m'.text ∧ m'.size ≤ m.size + 1 := by
  cases m with
  | normal | num | word => cases h
  | str acc =>
    simp only [strStep] at h
    split_ifs at h
    · cases h
      exact ⟨rfl, List.prefix_rfl, Nat.le_succ _⟩
    · cases h
      exact ⟨rfl, List.prefix_append _ _, by simp [size, text]⟩
  | esc acc =>
    simp only [strStep] at h
    split_ifs at h
    · cases h
      exact ⟨rfl, List.prefix_rfl, by simp [size, text]⟩
    · obtain ⟨e, -, rfl⟩ := Option.map_eq_some_iff.1 h
      exact ⟨rfl, List.prefix_append _ _, by simp [size, text]⟩
  | hex acc hi ds =>
    simp only [strStep] at h
    split_ifs at h with hd hl
    · cases h
      exact ⟨rfl, List.prefix_rfl, by simp only [size, length_append, length_singleton]; omega⟩
    · obtain ⟨hin, htext, hsize⟩ := codeUnit_ok h
      exact ⟨hin, htext, by simp only [size] at *; omega⟩
  | pair acc hi =>
    simp only [strStep] at h
    split_ifs at h
    cases h
    exact ⟨rfl, List.prefix_rfl, Nat.le_succ _⟩
  | pairEsc acc hi =>
    simp only [strStep] at h
    split_ifs at h
    cases h
    exact ⟨rfl, List.prefix_rfl, by simp [size, text]⟩

theorem strRun_inStr (hm : m.inStr) (h : m.strRun b = some m') : m'.inStr := by
  induction b generalizing m with
  | nil =>
    cases h
    exact hm
  | cons c b ih =>
    obtain ⟨m1, hs, hr⟩ := Option.bind_eq_some_iff.1 h
    exact ih (strStep_ok hs).1 hr

theorem strRun_size (h : m.strRun b = some m') : m'.size ≤ m.size + b.length := by
  induction b generalizing m with
  | nil =>
    cases h
    exact Nat.le_refl _
  | cons c b ih =>
    obtain ⟨m1, hs, hr⟩ := Option.bind_eq_some_iff.1 h
    have h1 := (strStep_ok hs).2.2
    have h2 := ih hr
    rw [length_cons]
    omega

theorem strRun_str (h : (Mode.str acc).strRun b = some m) :
    (m = .str (acc ++ b) ∧ ∀ c ∈ b, 32 ≤ c ∧ c ≠ 92) ∨ m.size < acc.length + b.length := by
  induction b generalizing acc with
  | nil =>
    cases h
    exact .inl ⟨by simp, by simp⟩
  | cons c b ih =>
    obtain ⟨m1, hs, hr⟩ := Option.bind_eq_some_iff.1 h
    simp only [strStep] at hs
    split_ifs at hs with hc hlow
    · cases hs
      have := strRun_size hr
      rw [length_cons]
      have hesc : (Mode.esc acc).size = acc.length := rfl
      exact .inr (by omega)
    cases hs
    rcases ih hr with ⟨rfl, hb⟩ | hlt
    · refine .inl ⟨by simp, fun d hd => ?_⟩
      rcases mem_cons.1 hd with rfl | hd
      · exact ⟨UInt8.not_lt.1 hlow, hc⟩
      · exact hb d hd
    refine .inr ?_
    simp only [length_append, length_singleton] at hlt
    rw [length_cons]
    omega

theorem strRun_plain (h : isPlain s) : (Mode.str acc).strRun s = some (.str (acc ++ s)) := by
  induction s generalizing acc with
  | nil => simp [strRun]
  | cons c s ih =>
    simp only [isPlain, all_cons, Bool.and_eq_true, decide_eq_true_eq, bne_iff_ne] at h
    obtain ⟨⟨⟨hlow, -⟩, hc⟩, hs⟩ := h
    rw [strRun, strStep, if_neg hc, if_neg (UInt8.not_lt.2 hlow), Option.bind_some, ih hs]
    simp

end Mode

section
variable {toks ts : List Token} {m : Mode} {b : Bytes}

theorem finish_inStr (hm : m.inStr) : finish ⟨toks, m⟩ = none := by
  cases m with
  | normal | num | word => cases hm
  | _ => rfl

theorem step_inStr {c : UInt8} (hm : m.inStr) (hc : c ≠ 34 ∨ ∀ acc, m ≠ .str acc) :
    step ⟨toks, m⟩ c = (m.strStep c).map (⟨toks, ·⟩) := by
  cases m with
  | str acc =>
    have hne : c ≠ 34 := hc.resolve_right fun h => h acc rfl
    simp only [step]
    rw [if_neg hne]
  | normal | num | word => cases hm
  | _ => rfl

theorem run_strRun (hm : m.inStr) (hb : (34 : UInt8) ∉ b) : run ⟨toks, m⟩ b = (m.strRun b).map (⟨toks, ·⟩) := by
  induction b generalizing m with
  | nil => rfl
  | cons c b ih =>
    rw [mem_cons, not_or] at hb
    rw [run, step_inStr hm (.inl (Ne.symm hb.1)), Mode.strRun]
    cases hs : m.strStep c with
    | none => rfl
    | some m1 => exact ih (Mode.strStep_ok hs).1 hb.2

theorem run_finish_str (hm : m.inStr) (h : (run ⟨toks, m⟩ b).bind finish = some ts) :
    ∃ v, m.text <+: v ∧ v.length < m.size + b.length ∧ toks ++ [.str v] <+: ts := by
  induction b generalizing m with
  | nil =>
    rw [run, Option.bind_some, finish_inStr hm] at h
    cases h
  | cons c b ih =>
    rw [length_cons]
    by_cases hc : c ≠ 34 ∨ ∀ acc, m ≠ .str acc
    · rw [run, step_inStr hm hc] at h
      cases hs : m.strStep c with
      | none =>
        rw [hs] at h
        cases h
      | some m1 =>
        rw [hs] at h
        obtain ⟨hin, htext, hsize⟩ := Mode.strStep_ok hs
        obtain ⟨v, hv, hlen, hts⟩ := ih hin h
        exact ⟨v, htext.trans hv, by omega, hts⟩
    · push Not at hc
      obtain ⟨rfl, acc, rfl⟩ := hc
      have hend : (run ⟨toks ++ [.str acc], .normal⟩ b).bind finish = some ts := h
      exact ⟨acc, List.prefix_rfl, Nat.lt_add_of_pos_right (Nat.succ_pos _), run_finish_grows hend⟩

theorem eq_of_concat {α : Type} {l ts : List α} {a b : α} (ha : l ++ [a] <+: ts) (hb : l ++ [b] <+: ts) : a = b := by
  have := List.prefix_of_prefix_length_le ha hb (by simp)
  simpa using this

/-- What is before the first quote of a text in which a string and a quote come first. -/
theorem exists_quote : ∃ p q, s ++ 34 :: b = p ++ 34 :: q ∧ (34 : UInt8) ∉ p ∧ p <+: s := by
  induction s with
  | nil => exact ⟨[], b, rfl, by simp, List.prefix_rfl⟩
  | cons c s ih =>
    by_cases hc : c = 34
    · exact ⟨[], s ++ 34 :: b, by rw [hc]; rfl, by simp, List.nil_prefix⟩
    obtain ⟨p, q, hpq, hp, hs⟩ := ih
    refine ⟨c :: p, q, by rw [cons_append, hpq]; rfl, ?_, cons_prefix_cons.2 ⟨rfl, hs⟩⟩
    rw [mem_cons, not_or]
    exact ⟨Ne.symm hc, hp⟩

/-- **A string between quotes** is read as itself only if every character stands for itself. -/
theorem isPlain_of_read (h : (run ⟨toks, .str []⟩ (s ++ 34 :: b)).bind finish = some ts)
    (hts : toks ++ [.str s] <+: ts) : isPlain s := by
  obtain ⟨p, q, hpq, hp, hps⟩ := exists_quote
  rw [hpq, run_append, run_strRun rfl hp] at h
  cases hm : (Mode.str []).strRun p with
  | none =>
    rw [hm] at h
    cases h
  | some m =>
    rw [hm] at h
    change (run ⟨toks, m⟩ (34 :: q)).bind finish = some ts at h
    have hin := Mode.strRun_inStr rfl hm
    have hstr := Mode.strRun_str hm
    rw [length_nil, Nat.zero_add, nil_append] at hstr
    have hle := hps.length_le
    cases m with
    | normal | num | word => cases hin
    | hex | pair | pairEsc => cases h
    | str acc =>
      -- the quote ends the string
      have hend : (run ⟨toks ++ [.str acc], .normal⟩ q).bind finish = some ts := h
      have hacc : Token.str acc = .str s := eq_of_concat (run_finish_grows hend) hts
      cases hacc
      rcases hstr with ⟨hm', hc⟩ | hlt
      · cases hm'
        rw [isPlain, all_eq_true]
        intro c hcp
        have hq : c ≠ 34 := fun h => hp (h ▸ hcp)
        simp [hc c hcp, hq]
      · exact absurd hle (Nat.not_le.2 hlt)
    | esc acc =>
      -- it is escaped, and then a character of `s` before the first quote of `s`
      have hesc : (run ⟨toks, .str (acc ++ [34])⟩ q).bind finish = some ts := h
      obtain ⟨v, hv, -, hvts⟩ := run_finish_str rfl hesc
      have hvs : Token.str v = .str s := eq_of_concat hvts hts
      cases hvs
      rcases hstr with ⟨hm', -⟩ | hlt
      · cases hm'
      have hquote : acc ++ [34] <+: p := by
        refine List.prefix_of_prefix_length_le hv hps ?_
        rw [length_append, length_singleton]
        exact hlt
      exact absurd (hquote.subset (by simp)) hp

/-- .. and then it is. -/
theorem run_isPlain (h : isPlain s) : run ⟨toks, .str []⟩ s = some ⟨toks, .str s⟩ := by
  have hq : (34 : UInt8) ∉ s := by
    intro hmem
    have := all_eq_true.1 h 34 hmem
    simp at this
  rw [run_strRun rfl hq, Mode.strRun_plain h]
  rfl

end

/-! ### How long a string is -/

theorem wordValue_ne_str {b : Bytes} : wordValue b ≠ some (.str s) := by
  unfold wordValue
  split_ifs <;> simp

theorem flush_head {m : Mode} (h : flush ⟨[], m⟩ = some st) (hm : m ≠ .normal) :
    ∃ t, st = ⟨[t], .normal⟩ ∧ t ≠ .str s := by
  cases m with
  | normal => exact absurd rfl hm
  | num acc =>
    obtain ⟨q, -, rfl⟩ := Option.map_eq_some_iff.1 h
    exact ⟨_, rfl, by simp⟩
  | word acc =>
    obtain ⟨a, ha, rfl⟩ := Option.map_eq_some_iff.1 h
    refine ⟨_, rfl, fun heq => ?_⟩
    cases heq
    exact wordValue_ne_str ha
  | _ => cases h

/-- A text that starts with a string is longer than the string. -/
theorem str_length_lt {b : Bytes} {m : Mode} {ts : List Token} (hm : m.inStr = false)
    (h : (run ⟨[], m⟩ b).bind finish = some (.str s :: ts)) : s.length < b.length := by
  induction b generalizing m with
  | nil =>
    obtain ⟨st, hf, hts⟩ := Option.map_eq_some_iff.1 h
    by_cases hn : m = .normal
    · subst hn
      cases hf
      cases hts
    · obtain ⟨t, rfl, ht⟩ := flush_head hf hn
      exact absurd (cons.inj hts).1 ht
  | cons c b ih =>
    rw [length_cons]
    have hlt {m} (hm : m.inStr = false) (h : (run ⟨[], m⟩ b).bind finish = some (.str s :: ts)) :
        s.length < b.length + 1 := (ih hm h).trans (Nat.lt_succ_self _)
    -- a number or a literal that ends here is the first token
    have hflush (hn : m ≠ .normal) : (((flush ⟨[], m⟩).bind fun st => normalStep st.toks c).bind (run · b)).bind finish ≠
        some (.str s :: ts) := by
      intro h
      cases hf : flush ⟨[], m⟩ with
      | none =>
        rw [hf] at h
        cases h
      | some st =>
        obtain ⟨t, rfl, ht⟩ := flush_head hf hn
        rw [hf] at h
        have hstart : (run ⟨[t], .normal⟩ (c :: b)).bind finish = some (.str s :: ts) := h
        exact ht (cons_prefix_cons.1 (run_finish_grows hstart)).1
    rw [run] at h
    cases m with
    | normal =>
      simp only [step, normalStep] at h
      split at h
      · exact hlt rfl h
      split at h
      · rename_i t ht
        have hts := cons_prefix_cons.1 (run_finish_grows h)
        unfold punct at ht
        split_ifs at ht <;> cases ht <;> cases hts.1
      split_ifs at h
      · obtain ⟨v, -, hlen, hv⟩ := run_finish_str rfl h
        cases (cons_prefix_cons.1 hv).1
        rw [show Mode.size (.str []) = 0 from rfl] at hlen
        omega
      · exact hlt rfl h
      · exact hlt rfl h
      · cases h
    | num acc | word acc =>
      simp only [step] at h
      split_ifs at h
      · exact hlt rfl h
      · exact absurd h (hflush (by simp))
    | _ => cases hm

/-! ## Numbers in decimal -/

theorem normalStep_digit {c : UInt8} (h : isDigitByte c) (toks : List Token) :
    normalStep toks c = some ⟨toks, .num [c]⟩ := by
  obtain ⟨n, hn, rfl⟩ := exists_digit h
  interval_cases n <;> rfl

theorem magnitude_decimal (neg : Bool) (n : Nat) : magnitude neg (decimal n) = some (signed neg n : ℚ) := by
  obtain ⟨hdigits, hval, c, ds, hc, hzero⟩ := isDecimal_decimal n
  have htake : (decimal n).takeWhile isDigitByte = decimal n := takeWhile_eq_self_iff.2 hdigits
  have hdrop : (decimal n).dropWhile isDigitByte = [] := dropWhile_eq_nil_iff.2 hdigits
  have hhead : ¬ (decimal n = [] ∨ (decimal n).head? = some 48 ∧ (decimal n).length ≠ 1) := by
    rw [hc]
    rintro (h | ⟨h, hl⟩)
    · cases h
    · obtain ⟨-, rfl⟩ := hzero (Option.some.inj h)
      exact hl rfl
  rw [magnitude, htake, hdrop]
  dsimp only
  rw [if_neg hhead, hval]

theorem numValue_decimalInt (n : Int) : numValue (decimalInt n) = some (n : ℚ) := by
  unfold decimalInt
  split_ifs with h
  · have hn : signed true n.natAbs = n := by
      rw [signed, if_pos rfl]
      omega
    rw [numValue, magnitude_decimal, hn]
  have hn : signed false n.natAbs = n := by
    rw [signed, if_neg Bool.false_ne_true]
    omega
  obtain ⟨hdigits, -, c, ds, hc, -⟩ := isDecimal_decimal n.natAbs
  have hne : ∀ b, decimal n.natAbs ≠ 45 :: b := by
    intro b hb
    have := hdigits 45 (by rw [hb]; exact mem_cons_self)
    cases this
  have hpos : numValue (decimal n.natAbs) = magnitude false (decimal n.natAbs) := by
    unfold numValue
    split
    · rename_i b hb
      exact absurd hb (hne b)
    · rfl
  rw [hpos, magnitude_decimal, hn]

theorem run_digits {toks : List Token} {ds : Bytes} (h : ∀ c ∈ ds, isDigitByte c) :
    run ⟨toks, .num acc⟩ ds = some ⟨toks, .num (acc ++ ds)⟩ := by
  induction ds generalizing acc with
  | nil => simp [run]
  | cons c ds ih =>
    have hc : isNum c := by
      rw [isNum, h c mem_cons_self]
      rfl
    have hstep : step ⟨toks, .num acc⟩ c = some ⟨toks, .num (acc ++ [c])⟩ := by
      simp only [step]
      rw [if_pos hc]
    rw [run, hstep, Option.bind_some, ih fun d hd => h d (mem_cons_of_mem _ hd)]
    simp

theorem run_decimalInt (toks : List Token) (n : Int) :
    run ⟨toks, .normal⟩ (decimalInt n) = some ⟨toks, .num (decimalInt n)⟩ := by
  obtain ⟨hdigits, -, c, ds, hc, -⟩ := isDecimal_decimal n.natAbs
  unfold decimalInt
  split_ifs with h
  · exact run_digits hdigits
  rw [hc] at hdigits ⊢
  rw [run, step, normalStep_digit (hdigits c mem_cons_self), Option.bind_some]
  exact run_digits fun d hd => hdigits d (mem_cons_of_mem _ hd)

theorem lex_decimalInt (n : Int) : lex (decimalInt n) = some [.num n] := by
  rw [lex, run_decimalInt, Option.bind_some, finish, flush]
  simp only [numValue_decimalInt]
  rfl

end BareRTC.Json
