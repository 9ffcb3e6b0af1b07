import BareRTC.Lib.JsonRead

/-!
# JSON texts made of pieces

A text printed from a template is a list of chunks: what the template has, and the fields put into
it, each with the value it is given for. `expect` reads the chunks as if every field were its value,
and `denotes_render_iff` says that the text is read like that exactly if every field is right. What
is expected depends on the template alone, but for the values: `plan` finds the tokens with a hole
for each field, and `expects_of_plan` fills them in.
-/

namespace BareRTC.Json

open List

inductive Chunk
  | lit (b : Bytes)
  | str (s : Bytes)
  | esc (p g : Bytes)
  | int (n : Int) (g : Atom)
  /-- `true` or `false`. -/
  | word (b : Bool)

namespace Chunk

def text : Chunk → Bytes
  | .lit b => b
  | .str s => s
  | .esc p _ => p
  | .int n _ => decimalInt n
  | .word b => if b then [116, 114, 117, 101] else [102, 97, 108, 115, 101]

def Lexed : Chunk → Prop
  | .lit _ => True
  | .str s => isPlain s
  | .esc p g => run ⟨[], .str []⟩ p = some ⟨[], .str g⟩
  | .int n g => g = .num n
  | .word _ => True

def IsUtf8 : Chunk → Prop
  | .str s => isUtf8 s
  | .esc p _ => isUtf8 p
  | _ => True

def Ok (c : Chunk) : Prop := c.IsUtf8 ∧ c.Lexed

theorem ok_int {n : Int} {g : Atom} : (Chunk.int n g).Ok ↔ g = .num n := ⟨fun h => h.2, fun h => ⟨trivial, h⟩⟩

def Closed : Chunk → Prop
  | .esc p _ => ∃ v, run ⟨[], .str []⟩ p = some ⟨[], .str v⟩
  | _ => True

end Chunk

def render (cs : List Chunk) : Bytes := cs.flatMap Chunk.text

def startsWith (f : UInt8 → Bool) : List Chunk → Bool
  | .lit (c :: _) :: _ => f c
  | _ => false

def expect : Lex → List Chunk → Option (List Token)
  | st, [] => finish st
  | st, .lit b :: cs => if b.all (· < 0x80) then (run st b).bind (expect · cs) else none
  | ⟨toks, .str []⟩, .str s :: cs => if startsWith (· == 34) cs then expect ⟨toks, .str s⟩ cs else none
  | ⟨toks, .str []⟩, .esc _ g :: cs => if startsWith (· == 34) cs then expect ⟨toks, .str g⟩ cs else none
  | ⟨toks, .normal⟩, .int _ g :: cs =>
    if startsWith isDelim cs then expect ⟨toks ++ [.atom g], .normal⟩ cs else none
  | ⟨toks, .normal⟩, .word b :: cs =>
    if startsWith isDelim cs then expect ⟨toks ++ [.atom (.bool b)], .normal⟩ cs else none
  | _, _ => none

variable {f : UInt8 → Bool}

section
variable {toks ts : List Token} {cs : List Chunk} {st : Lex}

theorem expect_grows (h : expect st cs = some ts) : st.toks <+: ts := by
  fun_induction expect st cs with
  | case1 st =>
    obtain ⟨st', hf, rfl⟩ := Option.map_eq_some_iff.1 h
    exact flush_grows hf
  | case2 st b cs hb ih =>
    obtain ⟨st', hr, he⟩ := Option.bind_eq_some_iff.1 h
    exact (run_grows hr).trans (ih st' he)
  | case4 toks s cs hq ih | case6 toks p g cs hq ih => exact ih h
  | case8 toks n g cs hd ih | case10 toks b cs hd ih => exact (List.prefix_append _ _).trans (ih h)
  | _ => cases h

theorem startsWith_iff : startsWith f cs ↔ ∃ c b cs', cs = .lit (c :: b) :: cs' ∧ f c := by
  constructor
  · intro h
    unfold startsWith at h
    split at h
    · exact ⟨_, _, _, rfl, h⟩
    · cases h
  · rintro ⟨c, b, cs', rfl, hc⟩
    exact hc

theorem render_cons (c : Chunk) : render (c :: cs) = c.text ++ render cs := rfl

theorem render_startsWith (h : startsWith f cs) : ∃ c b, render cs = c :: b ∧ f c := by
  obtain ⟨c, b, cs', rfl, hc⟩ := startsWith_iff.1 h
  exact ⟨c, b ++ render cs', rfl, hc⟩

theorem expect_str {acc : Bytes} (hq : startsWith (· == 34) cs)
    (h : expect ⟨toks, .str acc⟩ cs = some ts) : toks ++ [.str acc] <+: ts := by
  obtain ⟨c, b, cs', rfl, hc⟩ := startsWith_iff.1 hq
  obtain rfl := eq_of_beq hc
  simp only [expect] at h
  split at h
  · obtain ⟨st, hr, he⟩ := Option.bind_eq_some_iff.1 h
    have hrun : run ⟨toks ++ [.str acc], .normal⟩ b = some st := hr
    exact (run_grows hrun).trans (expect_grows he)
  · cases h

theorem lex_word {b : Bool} : lex (Chunk.word b).text = some [.atom (.bool b)] := by
  cases b <;> rfl

theorem lexed_iff (h : expect st cs = some ts) (hcl : ∀ c ∈ cs, c.Closed) :
    (run st (render cs)).bind finish = some ts ↔ ∀ c ∈ cs, c.Lexed := by
  fun_induction expect st cs with
  | case1 st => exact ⟨fun _ _ => nofun, fun _ => h⟩
  | case2 st b cs hb ih =>
    obtain ⟨st', hr, he⟩ := Option.bind_eq_some_iff.1 h
    rw [render_cons, forall_mem_cons]
    rw [forall_mem_cons] at hcl
    have hrun : run st (b ++ render cs) = run st' (render cs) := by
      rw [run_append, hr, Option.bind_some]
    rw [Chunk.text, hrun, ih st' he hcl.2]
    exact ⟨fun h => ⟨trivial, h⟩, fun h => h.2⟩
  | case4 toks s cs hq ih =>
    rw [render_cons, forall_mem_cons]
    rw [forall_mem_cons] at hcl
    have hplain : isPlain s → run ⟨toks, .str []⟩ (s ++ render cs) = run ⟨toks, .str s⟩ (render cs) := by
      intro hs
      rw [run_append, run_isPlain hs, Option.bind_some]
    constructor
    · intro hread
      obtain ⟨c, b, hrender, hc⟩ := render_startsWith hq
      obtain rfl := eq_of_beq hc
      rw [Chunk.text, hrender] at hread
      have hs := isPlain_of_read hread (expect_str hq h)
      rw [← hrender, hplain hs, ih h hcl.2] at hread
      exact ⟨hs, hread⟩
    · rintro ⟨hs, hrest⟩
      rw [Chunk.text, hplain hs]
      exact (ih h hcl.2).2 hrest
  | case6 toks p g cs hq ih =>
    rw [render_cons, forall_mem_cons]
    rw [forall_mem_cons] at hcl
    obtain ⟨⟨v, hv⟩, hrest⟩ := hcl
    have hrun : run ⟨toks, .str []⟩ (p ++ render cs) = run ⟨toks, .str v⟩ (render cs) := by
      have hafter := run_after toks ⟨[], .str []⟩ p
      rw [hv, Lex.after, append_nil] at hafter
      rw [run_append, hafter]
      simp [Lex.after]
    rw [Chunk.text, hrun]
    constructor
    · intro hread
      obtain ⟨c, b, hrender, hc⟩ := render_startsWith hq
      obtain rfl := eq_of_beq hc
      rw [hrender] at hread
      have hend : (run ⟨toks ++ [.str v], .normal⟩ b).bind finish = some ts := hread
      have hvg : Token.str v = .str g := eq_of_concat (run_finish_grows hend) (expect_str hq h)
      cases hvg
      rw [← hrender] at hread
      exact ⟨hv, (ih h hrest).1 hread⟩
    · rintro ⟨hg, hlexed⟩
      cases Option.some.inj (hv.symm.trans hg)
      exact (ih h hrest).2 hlexed
  | case8 toks n g cs hd ih =>
    rw [render_cons, forall_mem_cons]
    rw [forall_mem_cons] at hcl
    obtain ⟨c, b, hrender, hc⟩ := render_startsWith hd
    have hrun : run ⟨toks, .normal⟩ (decimalInt n ++ render cs) = run ⟨toks ++ [.num n], .normal⟩ (render cs) := by
      rw [hrender, run_of_lex (lex_decimalInt n) hc]
    rw [Chunk.text, hrun]
    constructor
    · intro hread
      have hng : Token.num n = .atom g := eq_of_concat (run_finish_grows hread) (expect_grows h)
      cases hng
      exact ⟨rfl, (ih h hcl.2).1 hread⟩
    · rintro ⟨hg, hlexed⟩
      cases hg
      exact (ih h hcl.2).2 hlexed
  | case10 toks b cs hd ih =>
    rw [render_cons, forall_mem_cons]
    rw [forall_mem_cons] at hcl
    obtain ⟨c, r, hrender, hc⟩ := render_startsWith hd
    rw [hrender, run_of_lex (lex_word) hc, ← hrender, ih h hcl.2]
    exact ⟨fun h => ⟨trivial, h⟩, fun h => h.2⟩
  | _ => cases h

/-! ## The bytes of the text -/

theorem isUtf8_of_ascii {a : Bytes} (h : a.all (· < 0x80)) (b : Bytes) : isUtf8 (a ++ b) = isUtf8 b := by
  induction a with
  | nil => rfl
  | cons c a ih =>
    rw [all_cons, Bool.and_eq_true, decide_eq_true_eq] at h
    rw [cons_append, isUtf8, Utf8.run, Utf8.step_ascii h.1, if_pos rfl]
    exact ih h.2

theorem decimalInt_ascii {n : Int} : (decimalInt n).all (· < 0x80) := by
  have hdigits : (decimal n.natAbs).all (· < 0x80) := by
    rw [all_eq_true]
    intro c hc
    obtain ⟨k, hk, rfl⟩ := exists_digit ((isDecimal_decimal n.natAbs).digits c hc)
    interval_cases k <;> rfl
  unfold decimalInt
  split_ifs
  · rw [all_cons, hdigits]
    rfl
  · exact hdigits

theorem isUtf8_quoted {s : Bytes} (hq : startsWith (· == 34) cs) :
    isUtf8 (s ++ render cs) ↔ isUtf8 s ∧ isUtf8 (render cs) := by
  obtain ⟨c, b, hrender, hc⟩ := render_startsWith hq
  obtain rfl := eq_of_beq hc
  rw [hrender, isUtf8_append (by decide), Bool.and_eq_true]

theorem isUtf8_iff (h : expect st cs = some ts) : isUtf8 (render cs) ↔ ∀ c ∈ cs, c.IsUtf8 := by
  fun_induction expect st cs with
  | case1 st => exact ⟨fun _ _ => nofun, fun _ => rfl⟩
  | case2 st b cs hb ih =>
    obtain ⟨st', -, he⟩ := Option.bind_eq_some_iff.1 h
    rw [render_cons, forall_mem_cons, Chunk.text, isUtf8_of_ascii hb, ih st' he]
    exact ⟨fun h => ⟨trivial, h⟩, fun h => h.2⟩
  | case4 toks s cs hq ih | case6 toks p g cs hq ih =>
    rw [render_cons, forall_mem_cons, Chunk.text, isUtf8_quoted hq, ih h]
    rfl
  | case8 toks n g cs hd ih =>
    rw [render_cons, forall_mem_cons, Chunk.text, isUtf8_of_ascii (decimalInt_ascii), ih h]
    exact ⟨fun h => ⟨trivial, h⟩, fun h => h.2⟩
  | case10 toks b cs hd ih =>
    have hascii : (Chunk.word b).text.all (· < 0x80) := by
      cases b <;> rfl
    rw [render_cons, forall_mem_cons, isUtf8_of_ascii hascii, ih h]
    exact ⟨fun h => ⟨trivial, h⟩, fun h => h.2⟩
  | _ => cases h

end

/-- **The text of a template** denotes the value that its fields are given for exactly if each of
them is printed right. -/
theorem denotes_render_iff {cs : List Chunk} {v : Value} (h : expect ⟨[], .normal⟩ cs = some v.tokens)
    (hcl : ∀ c ∈ cs, c.Closed) : Denotes (render cs) v ↔ ∀ c ∈ cs, c.Ok := by
  rw [Denotes, lex, isUtf8_iff h, lexed_iff h hcl]
  exact ⟨fun hok c hc => ⟨hok.1 c hc, hok.2 c hc⟩, fun hok => ⟨fun c hc => (hok c hc).1, fun c hc => (hok c hc).2⟩⟩

/-! ## Templates -/

inductive Seg
  | lit (b : Bytes)
  | quoted
  | bare
  deriving DecidableEq

def Chunk.seg : Chunk → Seg
  | .lit b => .lit b
  | .str _ | .esc _ _ => .quoted
  | .int _ _ | .word _ => .bare

def Chunk.given : Chunk → Option Atom
  | .lit _ => none
  | .str s => some (.str s)
  | .esc _ g => some (.str g)
  | .int _ g => some g
  | .word b => some (.bool b)

inductive Item
  | tok (t : Token)
  | hole
  deriving DecidableEq

inductive Place
  | normal | opened | filled
  deriving DecidableEq

def Place.ofMode : Mode → Option Place
  | .normal => some .normal
  | .str [] => some .opened
  | _ => none

def planLit (b : Bytes) : Option (List Item × Place) :=
  if b.all (· < 0x80) then
    (run ⟨[], .normal⟩ b).bind fun st => (Place.ofMode st.mode).map fun pl => (st.toks.map .tok, pl)
  else none

def segStarts (f : UInt8 → Bool) : List Seg → Bool
  | .lit (c :: _) :: _ => f c
  | _ => false

def plan : Place → List Seg → Option (List Item)
  | .normal, [] => some []
  | .normal, .lit b :: ss => (planLit b).bind fun (items, pl) => (plan pl ss).map (items ++ ·)
  | .filled, .lit (34 :: b) :: ss => (planLit b).bind fun (items, pl) => (plan pl ss).map (items ++ ·)
  | .opened, .quoted :: ss => (plan .filled ss).map (.hole :: ·)
  | .normal, .bare :: ss => if segStarts isDelim ss then (plan .normal ss).map (.hole :: ·) else none
  | _, _ => none

def fill : List Item → List Atom → List Token
  | [], _ => []
  | .tok t :: items, as => t :: fill items as
  | .hole :: items, a :: as => .atom a :: fill items as
  | .hole :: _, [] => []

theorem fill_tok_append (ts : List Token) (items : List Item) (as : List Atom) :
    fill (ts.map .tok ++ items) as = ts ++ fill items as := by
  induction ts with
  | nil => rfl
  | cons t ts ih => rw [map_cons, cons_append, fill, ih, cons_append]

theorem startsWith_segStarts {cs : List Chunk} (h : segStarts f (cs.map Chunk.seg)) :
    startsWith f cs := by
  cases cs with
  | nil => cases h
  | cons c cs =>
    cases c with
    | lit b => cases b <;> first | cases h | exact h
    | _ => cases h

def Expects (cs : List Chunk) (ts toks : List Token) : Place → Prop
  | .normal => expect ⟨toks, .normal⟩ cs = some (toks ++ ts)
  | .opened => expect ⟨toks, .str []⟩ cs = some (toks ++ ts)
  | .filled => startsWith (· == 34) cs ∧ ∀ s, expect ⟨toks, .str s⟩ cs = some (toks ++ .str s :: ts)

theorem expect_lit {b : Bytes} {its : List Item} {pl : Place} {cs : List Chunk} {items : List Item}
    {as : List Atom} (h : planLit b = some (its, pl)) (hcs : ∀ toks, Expects cs (fill items as) toks pl)
    {toks : List Token} : b.all (· < 0x80) ∧
      (run ⟨toks, .normal⟩ b).bind (expect · cs) = some (toks ++ fill (its ++ items) as) := by
  unfold planLit at h
  split_ifs at h with hb
  obtain ⟨⟨ts, m⟩, hr, hm⟩ := Option.bind_eq_some_iff.1 h
  obtain ⟨pl', hpl, he⟩ := Option.map_eq_some_iff.1 hm
  cases he
  have hrun : run ⟨toks, .normal⟩ b = some ⟨toks ++ ts, m⟩ := by
    have hafter := run_after toks ⟨[], .normal⟩ b
    rw [hr] at hafter
    simpa [Lex.after] using hafter
  refine ⟨hb, ?_⟩
  have hex := hcs (toks ++ ts)
  rw [hrun, Option.bind_some, fill_tok_append, ← append_assoc]
  cases m with
  | normal =>
    cases hpl
    exact hex
  | str acc =>
    cases acc with
    | nil =>
      cases hpl
      exact hex
    | cons c acc => cases hpl
  | _ => cases hpl

theorem expects_quoted {c : Chunk} {cs : List Chunk} {g : Bytes} {ts toks : List Token}
    (hc : expect ⟨toks, .str []⟩ (c :: cs) = if startsWith (· == 34) cs then expect ⟨toks, .str g⟩ cs else none)
    (h : Expects cs ts toks .filled) : Expects (c :: cs) (.str g :: ts) toks .opened := by
  rw [Expects, hc, if_pos h.1]
  exact h.2 g

theorem expects_bare {c : Chunk} {cs : List Chunk} {a : Atom} {ts toks : List Token}
    (hc : expect ⟨toks, .normal⟩ (c :: cs) =
      if startsWith isDelim cs then expect ⟨toks ++ [.atom a], .normal⟩ cs else none)
    (hs : segStarts isDelim (cs.map Chunk.seg)) (h : Expects cs ts (toks ++ [.atom a]) .normal) :
    Expects (c :: cs) (.atom a :: ts) toks .normal := by
  rw [Expects, hc, if_pos (startsWith_segStarts hs)]
  simpa [Expects] using h

/-- **What a template is expected to be read as**: its tokens, with the values that the fields are
given for. -/
theorem expects_of_plan {pl : Place} {cs : List Chunk} {items : List Item}
    (h : plan pl (cs.map Chunk.seg) = some items) (toks : List Token) :
    Expects cs (fill items (cs.filterMap Chunk.given)) toks pl := by
  induction cs generalizing pl items toks with
  | nil =>
    cases pl with
    | normal =>
      cases h
      simp [Expects, expect, finish, flush, fill]
    | _ => cases h
  | cons c cs ih =>
    cases c with
    | lit b =>
      cases pl with
      | normal =>
        obtain ⟨⟨its, pl'⟩, hl, hrest⟩ := Option.bind_eq_some_iff.1 h
        obtain ⟨items', hp, rfl⟩ := Option.map_eq_some_iff.1 hrest
        obtain ⟨hb, hrun⟩ := expect_lit hl (ih hp)
        rw [Expects, expect, if_pos hb]
        exact hrun
      | opened => cases h
      | filled =>
        cases b with
        | nil => cases h
        | cons c b =>
          by_cases hc : c = 34
          · subst hc
            obtain ⟨⟨its, pl'⟩, hl, hrest⟩ := Option.bind_eq_some_iff.1 h
            obtain ⟨items', hp, rfl⟩ := Option.map_eq_some_iff.1 hrest
            refine ⟨rfl, fun s => ?_⟩
            obtain ⟨hb, hrun⟩ := expect_lit hl (ih hp)
            rw [expect, if_pos (by rw [all_cons, hb]; rfl)]
            rw [append_assoc] at hrun
            exact hrun
          · simp [plan, Chunk.seg, hc] at h
    | str | esc =>
      cases pl with
      | opened =>
        obtain ⟨items', hp, rfl⟩ := Option.map_eq_some_iff.1 h
        exact expects_quoted rfl (ih hp toks)
      | _ => cases h
    | int | word =>
      cases pl with
      | normal =>
        simp only [map_cons, Chunk.seg, plan] at h
        split_ifs at h with hs
        obtain ⟨items', hp, rfl⟩ := Option.map_eq_some_iff.1 h
        exact expects_bare rfl hs (ih hp _)
      | _ => cases h

end BareRTC.Json
