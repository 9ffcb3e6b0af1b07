import BareRTC.Signal.Connection
import BareRTC.Signal.Message

/-!
# The requests as JSON

The text of a request is read as the object it is meant to be exactly if each of its arguments is
printed as the value it is given for, `faithful_iff`: strings are not escaped, so only plain ones
are, and an id is printed as a signed number. Two templates are wrong by themselves, those for a
candidate and for a new room.
-/

namespace BareRTC.Signal

open Json
open List hiding lex

/-! ## What `utf8_encode` prints -/

theorem utf8EncodeChar_eq {c : UInt8} (hlow : ¬ c < 32) (hq : ¬ (c = 34 ∨ c = 92 ∨ c = 47)) :
    utf8EncodeChar c = [c] := by
  have hge : ∀ d : UInt8, d < 32 → c ≠ d := fun d hd h => hlow (h ▸ hd)
  rw [utf8EncodeChar, if_neg hq, if_neg (hge 8 (by decide)), if_neg (hge 12 (by decide)),
    if_neg (hge 10 (by decide)), if_neg (hge 13 (by decide)), if_neg (hge 9 (by decide)), if_neg hlow]

/-- A character is a control character, one that has an escape of its own, or printed as it is. -/
theorem utf8EncodeChar_cases (c : UInt8) : (∃ n < 32, c = UInt8.ofNat n) ∨ (c = 34 ∨ c = 92 ∨ c = 47) ∨
    (¬ c < 32 ∧ c ≠ 34 ∧ c ≠ 92 ∧ utf8EncodeChar c = [c]) := by
  by_cases hlow : c < 32
  · exact .inl ⟨c.toNat, hlow, by simp⟩
  by_cases hq : c = 34 ∨ c = 92 ∨ c = 47
  · exact .inr (.inl hq)
  have heq := utf8EncodeChar_eq hlow hq
  push Not at hq
  exact .inr (.inr ⟨hlow, hq.1, hq.2.1, heq⟩)

theorem run_utf8EncodeChar {c : UInt8} (hc : c ≠ 0) (acc : Bytes) :
    run ⟨[], .str acc⟩ (utf8EncodeChar c) = some ⟨[], .str (acc ++ [c])⟩ := by
  rcases utf8EncodeChar_cases c with ⟨n, hn, rfl⟩ | (rfl | rfl | rfl) | ⟨hlow, hq, hb, heq⟩
  · interval_cases n
    · exact absurd rfl hc
    all_goals rfl
  · rfl
  · rfl
  · rfl
  rw [heq]
  simp only [run, Json.step, Mode.strStep]
  rw [if_neg hq, if_neg hb, if_neg hlow]
  rfl

theorem run_utf8Encode (s acc : Bytes) :
    run ⟨[], .str acc⟩ (utf8Encode s) = some ⟨[], .str (acc ++ s.takeWhile (· ≠ 0))⟩ := by
  induction s generalizing acc with
  | nil => simp [utf8Encode, run]
  | cons c s ih =>
    by_cases hc : c = 0
    · simp [utf8Encode, hc, run]
    · rw [utf8Encode, if_neg hc, run_append, run_utf8EncodeChar hc, Option.bind_some, ih]
      simp [hc]

theorem utf8Run_encodeChar (c : UInt8) (q : Utf8) : q.run (utf8EncodeChar c) = q.step c := by
  rcases utf8EncodeChar_cases c with ⟨n, hn, rfl⟩ | hc | ⟨-, -, -, heq⟩
  · interval_cases n <;> cases q <;> rfl
  · rcases hc with rfl | rfl | rfl <;> cases q <;> rfl
  · rw [heq]
    simp [Utf8.run]

theorem isUtf8_utf8Encode (s : Bytes) : isUtf8 (utf8Encode s) = isUtf8 (s.takeWhile (· ≠ 0)) := by
  have h : ∀ q : Utf8, q.run (utf8Encode s) = q.run (s.takeWhile (· ≠ 0)) := by
    induction s with
    | nil => exact fun _ => rfl
    | cons c s ih =>
      intro q
      by_cases hc : c = 0
      · simp [utf8Encode, hc]
      · rw [utf8Encode, if_neg hc, Utf8.run_append, utf8Run_encodeChar]
        simp [hc, Utf8.run, ih]
  rw [isUtf8, isUtf8, h]

/-! ## What `%lld` prints -/

theorem toInt64_toInt (n : UInt64) :
    n.toInt64.toInt = if n.toNat < 2 ^ 63 then (n.toNat : Int) else n.toNat - 2 ^ 64 := by
  have h : n.toInt64.toInt = n.toBitVec.toInt := rfl
  have hn : n.toBitVec.toNat = n.toNat := rfl
  rw [h, BitVec.toInt_eq_toNat_cond, hn]
  split_ifs <;> omega

theorem ofInt_toInt64_toInt {k : Int} (h : -2 ^ 63 ≤ k) (h' : k < 2 ^ 63) : (UInt64.ofInt k).toInt64.toInt = k := by
  have hn : (UInt64.ofInt k).toNat = (k % 2 ^ 64).toNat := by
    rw [UInt64.ofInt, UInt64.toNat_ofNat']
    omega
  rw [toInt64_toInt, hn]
  split_ifs <;> omega

/-- `atoll` of the text of an integer is the integer, within the range of its type. -/
theorem atoll_wholeInt {b : Bytes} {n : Int} (h : wholeInt b = some n) :
    (atoll b).toInt64.toInt = max (-2 ^ 63) (min n (2 ^ 63 - 1)) := by
  unfold wholeInt at h
  unfold atoll
  cases hb : b.dropWhile isSpace with
  | nil =>
    rw [hb] at h
    cases h
  | cons c ds =>
    rw [hb] at h
    dsimp only at h ⊢
    by_cases hm : c = chr '-'
    · simp only [hm, true_or, if_true] at h ⊢
      split_ifs at h
      cases h
      rw [ofInt_toInt64_toInt (by omega) (by omega)]
      omega
    simp only [hm, false_or, if_false] at h ⊢
    split_ifs at h
    all_goals cases h
    all_goals rw [toInt64_toInt, UInt64.toNat_ofNat']
    all_goals split_ifs <;> omega

/-! ## Arguments -/

inductive ArgKind
  | str | word | int
  deriving DecidableEq

namespace Arg

def kind : Arg → ArgKind
  | .str _ | .sdp _ => .str
  | .word _ => .word
  | .ull _ | .user _ => .int

def given : Arg → Atom
  | .str s | .sdp s => .str s
  | .word b => .bool b
  | .ull n => .num n.toNat
  | .user s => userId s

def Ok : Arg → Prop
  | .str s => isUtf8 s ∧ isPlain s
  | .sdp s => isUtf8 s ∧ (0 : UInt8) ∉ s
  | .word _ => True
  | .ull n => n.toNat < 2 ^ 63
  | .user s => ∃ n, wholeInt s = some n ∧ -2 ^ 63 ≤ n ∧ n < 2 ^ 63

end Arg

theorem esc_ok (s : Bytes) : (Chunk.esc (utf8Encode s) s).Ok ↔ isUtf8 s ∧ (0 : UInt8) ∉ s := by
  have hself : (0 : UInt8) ∉ s ↔ s.takeWhile (· ≠ 0) = s := by
    rw [takeWhile_eq_self_iff]
    constructor
    · intro h c hc
      rw [decide_eq_true_eq]
      rintro rfl
      exact h hc
    · intro h hc
      exact absurd rfl (of_decide_eq_true (h 0 hc))
  rw [Chunk.Ok, Chunk.IsUtf8, Chunk.Lexed, isUtf8_utf8Encode, run_utf8Encode, hself]
  constructor
  · rintro ⟨hu, hs⟩
    have hs : s.takeWhile (· ≠ 0) = s := by simpa using hs
    rw [hs] at hu
    exact ⟨hu, hs⟩
  · rintro ⟨hu, hs⟩
    rw [hs]
    exact ⟨hu, rfl⟩

theorem ull_ok (n : UInt64) : (Chunk.int n.toInt64.toInt (.num n.toNat)).Ok ↔ n.toNat < 2 ^ 63 := by
  have hcast : (n.toNat : ℚ) = ((n.toNat : Int) : ℚ) := by norm_cast
  rw [Chunk.ok_int, Atom.num.injEq, hcast, Int.cast_inj, toInt64_toInt]
  have := n.toNat_lt
  split_ifs <;> omega

theorem user_ok (s : Bytes) : (Chunk.int (atoll s).toInt64.toInt (userId s)).Ok ↔
    ∃ n, wholeInt s = some n ∧ -2 ^ 63 ≤ n ∧ n < 2 ^ 63 := by
  rw [Chunk.ok_int, userId]
  cases hw : wholeInt s with
  | none => simp
  | some n =>
    dsimp only
    rw [Atom.num.injEq, Int.cast_inj, atoll_wholeInt hw]
    constructor
    · intro h
      exact ⟨n, rfl, by omega, by omega⟩
    rintro ⟨m, hm, hlow, hhigh⟩
    cases hm
    omega

structure Printed (arg : Arg) (c : Chunk) : Prop where
  closed : c.Closed
  given : c.given = some arg.given
  ok : c.Ok ↔ arg.Ok

theorem print_printed {conv : Conv} {arg : Arg} {c : Chunk} (h : arg.print conv = some c) : Printed arg c := by
  cases conv with
  | lit b => cases arg <;> cases h
  | s =>
    cases arg with
    | str s => cases h; exact ⟨trivial, rfl, Iff.rfl⟩
    | sdp s => cases h; exact ⟨⟨_, run_utf8Encode s []⟩, rfl, esc_ok s⟩
    | word b => cases h; exact ⟨trivial, rfl, ⟨fun _ => trivial, fun _ => ⟨trivial, trivial⟩⟩⟩
    | ull | user => cases h
  | lld =>
    cases arg with
    | ull n => cases h; exact ⟨trivial, rfl, ull_ok n⟩
    | user s => cases h; exact ⟨trivial, rfl, user_ok s⟩
    | _ => cases h

/-! ## Templates -/

def segs : List Conv → List ArgKind → Option (List Seg)
  | [], [] => some []
  | .lit b :: cs, ks => (segs cs ks).map (.lit b :: ·)
  | .s :: cs, .str :: ks => (segs cs ks).map (.quoted :: ·)
  | .s :: cs, .word :: ks => (segs cs ks).map (.bare :: ·)
  | .lld :: cs, .int :: ks => (segs cs ks).map (.bare :: ·)
  | _, _ => none

structure Printing (args : List Arg) (ss : List Seg) (chunks : List Chunk) : Prop where
  seg : chunks.map Chunk.seg = ss
  closed : ∀ c ∈ chunks, c.Closed
  given : chunks.filterMap Chunk.given = args.map Arg.given
  ok : (∀ c ∈ chunks, c.Ok) ↔ ∀ a ∈ args, a.Ok

variable {args : List Arg} {ss : List Seg} {chunks : List Chunk} {cs : List Conv}

theorem printing_lit (b : Bytes) (h : Printing args ss chunks) : Printing args (.lit b :: ss) (.lit b :: chunks) where
  seg := congrArg (Seg.lit b :: ·) h.seg
  closed := forall_mem_cons.2 ⟨trivial, h.closed⟩
  given := h.given
  ok := by
    rw [forall_mem_cons, h.ok]
    exact ⟨fun h => h.2, fun h => ⟨⟨trivial, trivial⟩, h⟩⟩

theorem printing_arg {arg : Arg} {c : Chunk} (hp : Printed arg c) (h : Printing args ss chunks) :
    Printing (arg :: args) (c.seg :: ss) (c :: chunks) where
  seg := congrArg (c.seg :: ·) h.seg
  closed := forall_mem_cons.2 ⟨hp.closed, h.closed⟩
  given := by rw [filterMap_cons, hp.given, map_cons, h.given]
  ok := by rw [forall_mem_cons, forall_mem_cons, h.ok, hp.ok]

theorem segs_cons {c : Conv} {a : Arg} {ks : List ArgKind}
    (hc : ∀ b, c ≠ .lit b) (h : segs (c :: cs) (a.kind :: ks) = some ss) :
    ∃ chunk ss', a.print c = some chunk ∧ segs cs ks = some ss' ∧ chunk.seg :: ss' = ss := by
  cases c with
  | lit b => exact absurd rfl (hc b)
  | s =>
    cases a with
    | ull | user => cases h
    | _ =>
      obtain ⟨ss', hs, rfl⟩ := Option.map_eq_some_iff.1 h
      exact ⟨_, ss', rfl, hs, rfl⟩
  | lld =>
    cases a with
    | ull | user =>
      obtain ⟨ss', hs, rfl⟩ := Option.map_eq_some_iff.1 h
      exact ⟨_, ss', rfl, hs, rfl⟩
    | _ => cases h

theorem sprintf_cons {c : Conv} {a : Arg} {chunk : Chunk} (hc : ∀ b, c ≠ .lit b) (ha : a.print c = some chunk)
    (hcs : sprintf cs args = some chunks) : sprintf (c :: cs) (a :: args) = some (chunk :: chunks) := by
  cases c with
  | lit b => exact absurd rfl (hc b)
  | _ => (rw [sprintf, ha, Option.bind_some, hcs, Option.map_some]; nofun)

theorem sprintf_segs (h : segs cs (args.map Arg.kind) = some ss) :
    ∃ chunks, sprintf cs args = some chunks ∧ Printing args ss chunks := by
  induction cs generalizing args ss with
  | nil =>
    cases args with
    | nil =>
      cases h
      exact ⟨[], rfl, rfl, by simp, rfl, by simp⟩
    | cons a args => cases h
  | cons c cs ih =>
    by_cases hc : ∀ b, c ≠ .lit b
    · cases args with
      | nil => cases c <;> first | exact absurd rfl (hc _) | cases h
      | cons a args =>
        obtain ⟨chunk, ss', ha, hs, rfl⟩ := segs_cons hc h
        obtain ⟨chunks, hchunks, hp⟩ := ih hs
        exact ⟨chunk :: chunks, sprintf_cons hc ha hchunks, printing_arg (print_printed ha) hp⟩
    push Not at hc
    obtain ⟨b, rfl⟩ := hc
    obtain ⟨ss', hs, rfl⟩ := Option.map_eq_some_iff.1 h
    obtain ⟨chunks, hc, hp⟩ := ih hs
    refine ⟨.lit b :: chunks, ?_, printing_lit b hp⟩
    rw [sprintf, hc]
    rfl

theorem segs_of_sprintf (h : sprintf cs args = some chunks) : ∃ ss, segs cs (args.map Arg.kind) = some ss := by
  fun_induction sprintf cs args generalizing chunks with
  | case1 => exact ⟨[], rfl⟩
  | case2 b cs args ih =>
    obtain ⟨chunks, h, -⟩ := Option.map_eq_some_iff.1 h
    obtain ⟨ss, hs⟩ := ih h
    exact ⟨.lit b :: ss, by rw [segs, hs, Option.map_some]⟩
  | case3 c cs a args hc ih =>
    obtain ⟨chunk, ha, h⟩ := Option.bind_eq_some_iff.1 h
    obtain ⟨chunks, h, -⟩ := Option.map_eq_some_iff.1 h
    obtain ⟨ss, hs⟩ := ih h
    refine ⟨chunk.seg :: ss, ?_⟩
    rw [map_cons]
    cases c <;> cases a <;> cases ha <;> simp only [Arg.kind, segs, hs, Option.map_some, Chunk.seg]
  | case4 => cases h

/-- **A request as its template has it**: the text denotes the value exactly if the arguments are
printed right. -/
theorem denotes_sprintf {fmt : Bytes} {items : List Item} {v : Value}
    (hplan : (segs (conversions fmt) (args.map Arg.kind)).bind (plan .normal) = some items)
    (hv : fill items (args.map Arg.given) = v.tokens) :
    ∃ chunks, sprintf (conversions fmt) args = some chunks ∧ (Denotes (render chunks) v ↔ ∀ a ∈ args, a.Ok) := by
  obtain ⟨ss, hs, hp⟩ := Option.bind_eq_some_iff.1 hplan
  obtain ⟨chunks, hc, hpr⟩ := sprintf_segs hs
  refine ⟨chunks, hc, ?_⟩
  rw [← hpr.seg] at hp
  have hex : expect ⟨[], .normal⟩ chunks = some v.tokens := by
    have := expects_of_plan hp []
    rwa [hpr.given, hv] at this
  rw [denotes_render_iff hex hpr.closed, hpr.ok]

/-! ## The tokens of the templates -/

def objItems : List (Item × List Item) → List Item
  | [] => [.tok .lbrace, .tok .rbrace]
  | (k, v) :: ms => .tok .lbrace :: k :: .tok .colon :: (v ++ rest ms)
where
  rest : List (Item × List Item) → List Item
    | [] => [.tok .rbrace]
    | (k, v) :: ms => .tok .comma :: k :: .tok .colon :: (v ++ rest ms)

def token (s : String) : Item := .tok (.str (ascii s))

def field (k : String) : Item × List Item := (token k, [.hole])

def constant (k v : String) : Item × List Item := (token k, [token v])

def flag (k : String) : Item × List Item := (token k, [.tok (.atom (.bool true))])

def session : List (Item × List Item) := [field "transaction", field "session_id", field "handle_id"]

namespace Request

def items : Request → List Item
  | .create .. => objItems [constant "janus" "create", field "transaction", field "sdktag",
      field "janusIp", field "uri", flag "userevent", flag "sessionevent"]
  | .attach .. => objItems [constant "janus" "attach", constant "plugin" "janus.plugin.videoroom",
      field "transaction", field "session_id"]
  | .joinPublisher .. => objItems ([constant "janus" "message", (token "body", objItems [
      constant "request" "join", field "room", constant "ptype" "publisher", field "display", field "id",
      field "app_id", field "room_name", constant "role" "publisher", field "token"])] ++ session)
  | .joinListener .. => objItems ([constant "janus" "message", (token "body", objItems [
      constant "request" "join", field "room", constant "ptype" "listener", field "id", field "app_id",
      field "room_name", field "role", field "token", field "feed"])] ++ session)
  | .keepAlive .. => objItems [constant "janus" "keepalive", field "session_id", field "transaction"]
  | .offer .. => objItems ([constant "janus" "message", (token "body", objItems [
      constant "request" "configure", field "audio", field "video", field "data"]),
      (token "jsep", objItems [constant "type" "OFFER", field "sdp"])] ++ session)
  | .trickleComplete .. => objItems ([constant "janus" "trickle",
      (token "candidate", objItems [flag "completed"])] ++ session)
  | .answer .. => objItems ([constant "janus" "message", (token "body", objItems [
      constant "request" "start", field "room"]),
      (token "jsep", objItems [constant "type" "ANSWER", field "sdp"])] ++ session)
  | .configure .. => objItems ([constant "janus" "message", (token "body", objItems [
      constant "request" "configure", field "audio", field "video", field "data"])] ++ session)
  | .senddata .. => objItems [constant "janus" "message", field "transaction", (token "body", objItems [
      constant "request" "senddata", field "room", field "id", field "to", field "data",
      field "internal"]), field "session_id"]
  | .unpublish .. => objItems ([constant "janus" "message",
      (token "body", objItems [constant "request" "unpublish"])] ++ session)
  | .detach .. => objItems (constant "janus" "detach" :: session)
  | .createRoom .. => []
  | .trickle .. => []

end Request

def Planned (fmt : Bytes) (ks : List ArgKind) (items : List Item) : Prop :=
  (segs (conversions fmt) ks).bind (plan .normal) = some items

instance (fmt : Bytes) (ks : List ArgKind) (items : List Item) : Decidable (Planned fmt ks items) := by
  unfold Planned
  infer_instance

def Request.Regular : Request → Prop
  | .createRoom .. | .trickle .. => False
  | _ => True

variable {r : Request} (cfg : Config)

theorem planned (h : r.Regular) (cfg : Config) (id : Bytes) :
    Planned r.template ((r.args cfg id).map Arg.kind) r.items := by
  cases r with
  | createRoom | trickle => exact h.elim
  | _ =>
    -- only the kinds of the arguments matter
    simp only [Request.template, Request.args, map_cons, map_nil, Arg.kind, Request.items]
    decide +kernel

theorem fill_items (h : r.Regular) (cfg : Config) (id : Bytes) :
    fill r.items ((r.args cfg id).map Arg.given) = (r.json cfg id).tokens := by
  cases r with
  | createRoom | trickle => exact h.elim
  | _ => rfl

/-! ## A candidate -/

def trickleHead : Bytes := ascii "\x7b\"janus\":\"trickle\",\"candidate\":\x7b\"candidate\":\"candidate:\""

def trickleLit : Bytes := ascii "\",\"sdpMid\":\"0\",\"sdpMLineIndex\":0\x7d,\"transaction\":\""

def trickleTail : List Conv := (conversions gRtcTrickleCmd).drop 3

def trickleToks : List Token := [.lbrace, .str (ascii "janus"), .colon, .str (ascii "trickle"), .comma,
  .str (ascii "candidate"), .colon, .lbrace, .str (ascii "candidate"), .colon]

/-- The quote before the candidate ends the string, and that after it begins another one. -/
theorem trickle_template :
    conversions gRtcTrickleCmd = .lit trickleHead :: .s :: .lit trickleLit :: trickleTail ∧
    run ⟨[], .normal⟩ trickleHead = some ⟨trickleToks ++ [.str (ascii "candidate:")], .normal⟩ ∧
    run ⟨trickleToks ++ [.str (ascii "candidate:")], .normal⟩ trickleLit = none ∧
    (segs trickleTail [.str, .int, .int]).isSome := by
  decide +kernel

theorem trickle_denotes (id candidate : Bytes) (session handle : UInt64) :
    ∃ chunks, (Request.trickle candidate session handle).chunks cfg id = some chunks ∧
      ¬ Denotes (render chunks) ((Request.trickle candidate session handle).json cfg id) := by
  obtain ⟨hconv, hhead, hlit, hsegs⟩ := trickle_template
  obtain ⟨ss, hss⟩ := Option.isSome_iff_exists.1 hsegs
  have hargs : segs trickleTail ([.str id, .ull session, .ull handle].map Arg.kind) = some ss := hss
  obtain ⟨chunks, hchunks, -⟩ := sprintf_segs hargs
  refine ⟨.lit trickleHead :: .str candidate :: .lit trickleLit :: chunks, ?_, ?_⟩
  · rw [Request.chunks, Request.template, Request.args, hconv]
    simp [sprintf, Arg.print, hchunks]
  rintro ⟨-, hlex⟩
  rw [lex, render_cons, Chunk.text, run_append, hhead, Option.bind_some] at hlex
  have hjson : trickleToks ++ [.str (ascii "candidate:" ++ candidate)] <+:
      ((Request.trickle candidate session handle).json cfg id).tokens := prefix_append _ _
  have hcand : Token.str (ascii "candidate:") = .str (ascii "candidate:" ++ candidate) :=
    eq_of_concat (run_finish_grows hlex) hjson
  have hnil : candidate = [] := by simpa using hcand
  rw [hnil, render_cons, render_cons, Chunk.text, Chunk.text, nil_append, run_append, hlit] at hlex
  cases hlex

/-! ## A new room -/

def roomHead : Bytes := ascii "\x7b\"janus\":\"message\",\"body\":\x7b\"request\":\"create\",\"id\":"

def roomLit : Bytes := ascii ",\"app_id\":\""

def roomTail : List Conv := (conversions gRtcCreateRoom).drop 2

def roomToks : List Token := [.lbrace, .str (ascii "janus"), .colon, .str (ascii "message"), .comma,
  .str (ascii "body"), .colon, .lbrace, .str (ascii "request"), .colon, .str (ascii "create"), .comma,
  .str (ascii "id"), .colon]

def roomItems : List Item := objItems.rest [field "app_id", (.hole, [.hole]), field "description",
  (token "publishers", [.tok (.num 10000)]), (token "is_private", [.tok (.atom (.bool false))]),
  field "videocodec", field "audiocodec"] ++ objItems.rest session

theorem room_template :
    conversions gRtcCreateRoom = .lit roomHead :: .s :: roomTail ∧
    roomTail.head? = some (.lit roomLit) ∧
    run ⟨[], .normal⟩ roomHead = some ⟨roomToks, .normal⟩ ∧
    (segs roomTail [.str, .str, .str, .str, .str, .str, .str, .int, .int]).bind (plan .normal) = some roomItems := by
  decide +kernel

def roomArgs (cfg : Config) (transaction : Bytes) (session handle : UInt64) : List Arg :=
  [.str cfg.mAppId, .str (ascii "room_name"), .str cfg.mRoomName, .str (ascii "RTOS"),
    .str cfg.mVideoCodec, .str cfg.mAudioCodec, .str transaction, .ull session, .ull handle]

theorem room_json (id transaction : Bytes) (session handle : UInt64) :
    ((Request.createRoom transaction none session handle).json cfg id).tokens =
      roomToks ++ .atom (userId cfg.mUserId) ::
        fill roomItems ((roomArgs cfg transaction session handle).map Arg.given) := rfl

def IsNumber (b : Bytes) : Prop := ∃ n : Int, wholeInt b = some n ∧ Denotes b (.atom (.num n))

def Absent (k : Bytes) : List Token → Prop
  | [] => True
  | t :: ts => ¬ [.comma, .str k, .colon] <+: t :: ts ∧ Absent k ts

theorem Absent.not_mem {k : Bytes} {ts : List Token} (h : Absent k ts) (l : List Token) :
    ¬ l ++ [.comma, .str k, .colon] <+: ts := by
  induction l generalizing ts with
  | nil =>
    cases ts with
    | nil => simp
    | cons t ts => exact h.1
  | cons a l ih =>
    cases ts with
    | nil => simp
    | cons t ts =>
      rw [cons_append, cons_prefix_cons]
      rintro ⟨-, hl⟩
      exact ih h.2 hl

theorem roomLit_eq : roomLit = [44, 34, 97, 112, 112, 95, 105, 100, 34, 58, 34] ∧
    run ⟨[], .normal⟩ roomLit = some ⟨[.comma, .str (ascii "app_id"), .colon], .str []⟩ := by
  decide +kernel

/-- What comes after the user id cannot be read within a string or a word that is wrong. -/
theorem run_roomLit_none {st : Lex} (h : flush st = none) : run st roomLit = none := by
  obtain ⟨toks, m⟩ := st
  rw [roomLit_eq.1]
  cases m with
  | normal => cases h
  | num | word =>
    rw [run, Json.step]
    dsimp only
    rw [if_neg (by decide), h]
    rfl
  | str | esc | hex | pair | pairEsc => rfl

/-- **What is put between a colon and a comma** is one value: nothing can be slipped in, since the
name that follows occurs only once. -/
theorem lex_of_room {u b : Bytes} {toks ts : List Token} {g : Atom}
    (h : (run ⟨toks, .normal⟩ (u ++ (roomLit ++ b))).bind finish = some (toks ++ .atom g :: .comma :: ts))
    (hts : Absent (ascii "app_id") ts) : lex u = some [.atom g] := by
  cases hu : lex u with
  | none =>
    have hafter := run_after toks ⟨[], .normal⟩ u
    rw [Lex.after, append_nil] at hafter
    rw [run_append, hafter] at h
    cases hr : run ⟨[], .normal⟩ u with
    | none =>
      rw [hr] at h
      cases h
    | some st =>
      rw [lex, hr, Option.bind_some, finish, Option.map_eq_none_iff] at hu
      have hflush : flush (st.after toks) = none := by rw [flush_after, hu, Option.map_none]
      rw [hr, Option.map_some, Option.bind_some, run_append, run_roomLit_none hflush] at h
      cases h
  | some ts' =>
    have hrun : run ⟨toks, .normal⟩ (u ++ (roomLit ++ b)) = run ⟨toks ++ ts', .normal⟩ (roomLit ++ b) := by
      rw [roomLit_eq.1]
      exact run_of_lex hu (by decide) toks _
    have hafter := run_after (toks ++ ts') ⟨[], .normal⟩ roomLit
    rw [Lex.after, append_nil, roomLit_eq.2, Option.map_some] at hafter
    rw [hrun, run_append, hafter, Option.bind_some] at h
    have hpre := run_finish_grows h
    rw [Lex.after, append_assoc, prefix_append_right_inj] at hpre
    cases ts' with
    | nil => simp at hpre
    | cons t ts' =>
      rw [cons_append, cons_prefix_cons] at hpre
      obtain ⟨rfl, hpre⟩ := hpre
      cases ts' with
      | nil => rfl
      | cons t' ts' =>
        rw [cons_append, cons_prefix_cons] at hpre
        exact absurd hpre.2 (hts.not_mem ts')

theorem room_absent (transaction : Bytes) (session handle : UInt64) :
    ∃ ts, fill roomItems ((roomArgs cfg transaction session handle).map Arg.given) = .comma :: ts ∧
      Absent (ascii "app_id") ts := by
  refine ⟨_, rfl, ?_⟩
  simp only [Signal.session, field, token, objItems.rest, roomArgs, cons_append, nil_append,
    append_eq, map_cons, map_nil, Arg.given, fill, Absent, cons_prefix_cons, reduceCtorEq,
    false_and, not_false_eq_true, true_and, and_true, Token.atom.injEq, Atom.str.injEq, nil_prefix]
  decide +kernel

theorem isNumber_iff (b : Bytes) : IsNumber b ↔ isUtf8 b ∧ lex b = some [.atom (userId b)] := by
  unfold IsNumber userId
  cases hw : wholeInt b with
  | none =>
    refine ⟨fun h => ?_, fun h => ?_⟩
    · obtain ⟨n, hn, -⟩ := h
      cases hn
    · exact absurd (str_length_lt rfl h.2) (lt_irrefl _)
  | some n =>
    constructor
    · rintro ⟨m, hm, hd⟩
      cases hm
      exact hd
    · exact fun h => ⟨n, rfl, h⟩

/-- A room is read as one if the user id is a JSON number and the other arguments are printed
right. -/
theorem room_denotes (id transaction : Bytes) (session handle : UInt64) :
    ∃ chunks, (Request.createRoom transaction none session handle).chunks cfg id = some chunks ∧
      (Denotes (render chunks) ((Request.createRoom transaction none session handle).json cfg id) ↔
        IsNumber cfg.mUserId ∧ ∀ a ∈ roomArgs cfg transaction session handle, a.Ok) := by
  obtain ⟨hconv, hlit, hhead, hplan⟩ := room_template
  obtain ⟨ss, hss, hp⟩ := Option.bind_eq_some_iff.1 hplan
  have hargs : segs roomTail ((roomArgs cfg transaction session handle).map Arg.kind) = some ss := hss
  obtain ⟨chunks, hchunks, hpr⟩ := sprintf_segs hargs
  obtain ⟨tail, htail⟩ := head?_eq_some_iff.1 hlit
  -- the text after the user id starts with the template's
  obtain ⟨chunks', hrender⟩ : ∃ chunks', render chunks = roomLit ++ render chunks' := by
    rw [htail] at hchunks
    obtain ⟨chunks', -, rfl⟩ := Option.map_eq_some_iff.1 hchunks
    exact ⟨chunks', rfl⟩
  have hcons : render chunks = 44 :: (roomLit.tail ++ render chunks') := by
    rw [hrender, roomLit_eq.1]
    rfl
  rw [← hpr.seg] at hp
  have hex : ∀ toks, expect ⟨toks, .normal⟩ chunks =
      some (toks ++ fill roomItems ((roomArgs cfg transaction session handle).map Arg.given)) := by
    intro toks
    have := expects_of_plan hp toks
    rwa [hpr.given] at this
  refine ⟨.lit roomHead :: .str cfg.mUserId :: chunks, ?_, ?_⟩
  · have hrest : sprintf roomTail (roomArgs cfg transaction session handle) = some chunks := hchunks
    rw [Request.chunks, Request.template, hconv]
    show sprintf _ (.str cfg.mUserId :: roomArgs cfg transaction session handle) = _
    simp [sprintf, Arg.print, hrest]
  have hutf8 : isUtf8 (render (.lit roomHead :: .str cfg.mUserId :: chunks)) ↔
      isUtf8 cfg.mUserId ∧ ∀ c ∈ chunks, c.IsUtf8 := by
    rw [render_cons, render_cons, Chunk.text, Chunk.text, isUtf8_of_ascii (by decide +kernel), hcons,
      isUtf8_append (by decide), ← hcons, Bool.and_eq_true, isUtf8_iff (hex [])]
  have hlex : lex (render (.lit roomHead :: .str cfg.mUserId :: chunks)) =
      (run ⟨roomToks, .normal⟩ (cfg.mUserId ++ render chunks)).bind finish := by
    rw [lex, render_cons, render_cons, Chunk.text, Chunk.text, run_append, hhead, Option.bind_some]
  have hread : lex cfg.mUserId = some [.atom (userId cfg.mUserId)] →
      ((run ⟨roomToks, .normal⟩ (cfg.mUserId ++ render chunks)).bind finish =
        some ((Request.createRoom transaction none session handle).json cfg id).tokens ↔
        ∀ c ∈ chunks, c.Lexed) := by
    intro hu
    have hexp := hex (roomToks ++ [.atom (userId cfg.mUserId)])
    rw [append_assoc] at hexp
    rw [hcons, run_of_lex hu (by decide), ← hcons, room_json]
    exact lexed_iff hexp hpr.closed
  rw [Denotes, hutf8, hlex, isNumber_iff, ← hpr.ok]
  constructor
  · rintro ⟨⟨hu, hall⟩, hl⟩
    have hid : lex cfg.mUserId = some [.atom (userId cfg.mUserId)] := by
      obtain ⟨ts, hts, habsent⟩ := room_absent cfg transaction session handle
      rw [room_json, hts, hrender] at hl
      exact lex_of_room hl habsent
    exact ⟨⟨hu, hid⟩, fun c hc => ⟨hall c hc, (hread hid).1 hl c hc⟩⟩
  · rintro ⟨⟨hu, hid⟩, hok⟩
    exact ⟨⟨hu, fun c hc => (hok c hc).1⟩, (hread hid).2 fun c hc => (hok c hc).2⟩

/-! ## The requests -/

namespace Request

def Fits (cfg : Config) (id : Bytes) (r : Request) : Prop := ∀ t, r.text cfg id = some t → t.length < r.size

def Faithful (cfg : Config) (id : Bytes) (r : Request) : Prop :=
  ∃ t, r.text cfg id = some t ∧ (t.length < r.size → Json.Reads t (r.json cfg id))

def Proper (cfg : Config) (id : Bytes) : Request → Prop
  | .trickle .. => False
  | .createRoom transaction _ session handle =>
    IsNumber cfg.mUserId ∧ ∀ a ∈ roomArgs cfg transaction session handle, a.Ok
  | r => ∀ a ∈ r.args cfg id, a.Ok

end Request

theorem proper_iff (hr : ∀ transaction room session handle,
    r ≠ .createRoom transaction (some room) session handle) (cfg : Config) (id : Bytes) :
    ∃ chunks, r.chunks cfg id = some chunks ∧ (Denotes (render chunks) (r.json cfg id) ↔ r.Proper cfg id) := by
  have hregular : r.Regular → ∃ chunks, r.chunks cfg id = some chunks ∧
      (Denotes (render chunks) (r.json cfg id) ↔ ∀ a ∈ r.args cfg id, a.Ok) :=
    fun h => denotes_sprintf (planned h cfg id) (fill_items h cfg id)
  cases r with
  | createRoom transaction room session handle =>
    cases room with
    | none => exact room_denotes cfg id transaction session handle
    | some room => exact absurd rfl (hr transaction room session handle)
  | trickle candidate session handle =>
    obtain ⟨chunks, hc, hnot⟩ := trickle_denotes cfg id candidate session handle
    exact ⟨chunks, hc, fun h => absurd h hnot, False.elim⟩
  | _ => exact hregular trivial

theorem room_undefined (id transaction : Bytes) (room session handle : UInt64) :
    (Request.createRoom transaction (some room) session handle).chunks cfg id = none := by
  have hsegs : segs (conversions gRtcCreateRoom)
      [.str, .str, .str, .int, .str, .str, .str, .str, .int, .int] = none := by decide +kernel
  rw [Option.eq_none_iff_forall_ne_some]
  intro chunks hc
  obtain ⟨ss, hs⟩ := segs_of_sprintf hc
  cases hsegs.symm.trans hs

end BareRTC.Signal
