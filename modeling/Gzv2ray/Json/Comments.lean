import Gzv2ray.Json.Reader

/-!
# Taking out comments

What the reader of JSON files is to return, and when it does.

* `tokens`: what remains of an input without its comments, cut into tokens: a byte, or a backslash and
  the byte that it escapes;
* `State.next_continues`: on a regular input, a byte takes the states of the reader on as it does the
  tokens;
* `strips_iff`: the reader returns the bytes of the tokens, and no more than there is room for, exactly
  if no buffer ends within a token.
-/

namespace Gzv2ray.Json

/-! ## The reference -/

/-- Where a byte is: among the content, in a string with this quote, in a comment, or after a byte that
    it goes with. -/
inductive Place
  | content
  | string (quote : UInt8)
  | line
  | block
  | skip (place : Place)

/-- The token that begins with a byte, if it is kept, and the place of the next byte, given what follows.
    The line breaks of comments are kept. -/
def Place.next : Place → UInt8 → Bytes → List Bytes × Place
  | .content, x, l =>
    if x = backslash then ([x :: l.take 1], .skip .content)
    else if x = hash then ([], .line)
    else if x = slash ∧ l.head? = some slash then ([], .skip .line)
    else if x = slash ∧ l.head? = some star then ([], .skip .block)
    else ([[x]], if x = doubleQuote ∨ x = singleQuote then .string x else .content)
  | .string quote, x, l =>
    if x = backslash then ([x :: l.take 1], .skip (.string quote))
    else ([[x]], if x = quote then .content else .string quote)
  | .line, x, _ => if x = newline then ([[x]], .content) else ([], .line)
  | .block, x, l =>
    if x = newline then ([[x]], .block)
    else if x = star ∧ l.head? = some slash then ([], .skip .content)
    else ([], .block)
  | .skip place, _, _ => ([], place)

/-- The tokens that are kept, from such a place on. -/
def tokens : Place → Bytes → List Bytes
  | _, [] => []
  | place, x :: l => (place.next x l).1 ++ tokens (place.next x l).2 l

/-- The input without its comments. -/
def strip (l : Bytes) : Bytes := (tokens .content l).flatten

/-- The byte is no backslash at the end, no slash alone, and no star that line breaks separate from a
    slash. -/
def Place.Allows : Place → UInt8 → Bytes → Prop
  | .content, x, l => (x = backslash → l ≠ []) ∧
    (x = slash → l.head? = some slash ∨ l.head? = some star)
  | .string _, x, l => x = backslash → l ≠ []
  | .block, x, l =>
    x = star → l.head? = some slash ∨ (l.dropWhile (· = newline)).head? ≠ some slash
  | _, _, _ => True

/-- All bytes are such, from this place on. -/
def IsRegular : Place → Bytes → Prop
  | _, [] => True
  | place, x :: l => place.Allows x l ∧ IsRegular (place.next x l).2 l

instance (place : Place) (x : UInt8) (l : Bytes) : Decidable (place.Allows x l) :=
  match place with
  | .content => inferInstanceAs (Decidable (_ ∧ _))
  | .string _ => inferInstanceAs (Decidable (_ → _))
  | .line => inferInstanceAs (Decidable True)
  | .block => inferInstanceAs (Decidable (_ → _))
  | .skip _ => inferInstanceAs (Decidable True)

instance decidableIsRegular : (place : Place) → (l : Bytes) → Decidable (IsRegular place l)
  | _, [] => inferInstanceAs (Decidable True)
  | place, x :: l =>
    have := decidableIsRegular (place.next x l).2 l
    inferInstanceAs (Decidable (_ ∧ _))

/-! ## The states -/

/-- The place of a state. -/
def State.place : State → Place
  | .content | .escape | .slash => .content
  | .doubleQuote | .doubleQuoteEscape => .string Json.doubleQuote
  | .singleQuote | .singleQuoteEscape => .string Json.singleQuote
  | .comment => .line
  | .multilineComment | .multilineCommentStar => .block

/-- What was read, but is not decided on. -/
def State.ahead : State → Bytes
  | .escape | .doubleQuoteEscape | .singleQuoteEscape => [backslash]
  | .slash => [Json.slash]
  | .multilineCommentStar => [star]
  | _ => []

/-- What is appended, as tokens. -/
def appended (out : Bytes) : List Bytes := if out = [] then [] else [out]

theorem flatten_appended (out : Bytes) : (appended out).flatten = out := by
  rw [appended]
  split_ifs with h
  · rw [h, List.flatten_nil]
  · rw [List.flatten_singleton]

/-- The state goes on from `l` to `l'`, with what it appends. -/
def State.Continues (state : State) (l : Bytes) (next : Bytes × State) (l' : Bytes) : Prop :=
  tokens state.place (state.ahead ++ l) =
    appended next.1 ++ tokens next.2.place (next.2.ahead ++ l') ∧
  IsRegular next.2.place (next.2.ahead ++ l')

/-- Where nothing is left undecided, the places tell. -/
theorem continues_of_place {state : State} {x : UInt8} {l : Bytes} {next : Bytes × State}
    (hahead : state.ahead = []) (hahead' : next.2.ahead = [])
    (hplace : state.place.next x l = (appended next.1, next.2.place))
    (h : IsRegular state.place (x :: l)) : state.Continues (x :: l) next l := by
  have hregular := h.2
  rw [hplace] at hregular
  rw [State.Continues, hahead, hahead', List.nil_append, List.nil_append, tokens, hplace]
  exact ⟨rfl, hregular⟩

theorem next_content {x : UInt8} {l : Bytes} (h : IsRegular .content (x :: l)) :
    State.content.Continues (x :: l) (State.next .content x) l := by
  by_cases hdouble : x = doubleQuote
  · rw [hdouble] at h ⊢
    exact continues_of_place rfl rfl rfl h
  by_cases hsingle : x = singleQuote
  · rw [hsingle] at h ⊢
    exact continues_of_place rfl rfl rfl h
  by_cases hbackslash : x = backslash
  · rw [hbackslash] at h ⊢
    exact ⟨rfl, h⟩
  by_cases hhash : x = hash
  · rw [hhash] at h ⊢
    exact continues_of_place rfl rfl rfl h
  by_cases hslash : x = slash
  · rw [hslash] at h ⊢
    exact ⟨rfl, h⟩
  rw [State.next, if_neg hdouble, if_neg hsingle, if_neg hbackslash, if_neg hhash, if_neg hslash]
  refine continues_of_place rfl rfl ?_ h
  rw [State.place, Place.next, if_neg hbackslash, if_neg hhash, if_neg fun hx => hslash hx.1,
    if_neg fun hx => hslash hx.1, if_neg (not_or.2 ⟨hdouble, hsingle⟩)]
  rfl

/-- The states of a string, which differ in its quote. -/
theorem next_string {quote : UInt8} {state escaped : State} (hquote : quote ≠ backslash)
    (hplace : state.place = .string quote) (hescaped : escaped.place = .string quote)
    (hahead : state.ahead = []) (hahead' : escaped.ahead = [backslash])
    (hnext : ∀ x, state.next x =
      if x = quote then ([x], .content) else if x = backslash then ([], escaped) else ([x], state))
    {x : UInt8} {l : Bytes} (h : IsRegular (.string quote) (x :: l)) :
    state.Continues (x :: l) (state.next x) l := by
  rw [← hplace] at h
  rw [hnext]
  by_cases hx : x = quote
  · rw [if_pos hx]
    refine continues_of_place hahead rfl ?_ h
    rw [hplace, Place.next, if_neg (hx ▸ hquote), if_pos hx]
    rfl
  rw [if_neg hx]
  by_cases hbackslash : x = backslash
  · rw [if_pos hbackslash, State.Continues, hahead, hplace, hahead', hescaped, ← hbackslash]
    rw [hplace] at h
    exact ⟨rfl, h⟩
  · rw [if_neg hbackslash]
    refine continues_of_place hahead hahead ?_ h
    rw [hplace, Place.next, if_neg hbackslash, if_neg hx]
    rfl

theorem next_comment {x : UInt8} {l : Bytes} (h : IsRegular .line (x :: l)) :
    State.comment.Continues (x :: l) (State.next .comment x) l := by
  by_cases hnewline : x = newline
  · rw [hnewline] at h ⊢
    exact continues_of_place rfl rfl rfl h
  rw [State.next, if_neg hnewline]
  refine continues_of_place rfl rfl ?_ h
  rw [State.place, Place.next, if_neg hnewline]
  rfl

/-- The byte after a slash begins a comment. -/
theorem next_slash {x : UInt8} {l : Bytes} (h : IsRegular .content (slash :: x :: l)) :
    State.slash.Continues (x :: l) (State.next .slash x) l := by
  rcases h.1.2 rfl with hx | hx
  · obtain rfl : x = slash := Option.some.inj hx
    exact ⟨rfl, h.2.2⟩
  · obtain rfl : x = star := Option.some.inj hx
    exact ⟨rfl, h.2.2⟩

theorem next_multilineComment {x : UInt8} {l : Bytes} (h : IsRegular .block (x :: l)) :
    State.multilineComment.Continues (x :: l) (State.next .multilineComment x) l := by
  by_cases hstar : x = star
  · rw [hstar] at h ⊢
    exact ⟨rfl, h⟩
  by_cases hnewline : x = newline
  · rw [hnewline] at h ⊢
    exact continues_of_place rfl rfl rfl h
  rw [State.next, if_neg hstar, if_neg hnewline]
  refine continues_of_place rfl rfl ?_ h
  rw [State.place, Place.next, if_neg hnewline, if_neg fun hx => hstar hx.1]
  rfl

/-- A star that no slash follows is passed over. -/
theorem next_star {l : Bytes} (hl : l.head? ≠ some slash) : Place.next .block star l = ([], .block) := by
  rw [Place.next, if_neg (by decide), if_neg fun hx => hl hx.2]

/-- After a star, the state stays over line breaks. -/
theorem next_multilineCommentStar {x : UInt8} {l : Bytes} (h : IsRegular .block (star :: x :: l)) :
    State.multilineCommentStar.Continues (x :: l) (State.next .multilineCommentStar x) l := by
  by_cases hslash : x = slash
  · rw [hslash] at h ⊢
    exact ⟨rfl, h.2.2⟩
  have hx : (x :: l).head? ≠ some slash := fun hx => hslash (Option.some.inj hx)
  have hdrop := (h.1 rfl).resolve_left hx
  have hrest := h.2
  rw [next_star hx] at hrest
  have htokens : tokens .block (star :: x :: l) = tokens .block (x :: l) := by
    rw [tokens, next_star hx, List.nil_append]
  by_cases hstar : x = star
  · rw [hstar] at htokens hrest ⊢
    exact ⟨htokens, hrest⟩
  by_cases hnewline : x = newline
  · -- behind the line breaks, there is no slash
    rw [hnewline] at hdrop htokens hrest ⊢
    have hbehind : (l.dropWhile (· = newline)).head? ≠ some slash := hdrop
    have hl : l.head? ≠ some slash := by
      intro hl
      refine hbehind ?_
      cases l with
      | nil => cases hl
      | cons y l =>
        obtain rfl : y = slash := Option.some.inj hl
        rfl
    refine ⟨htokens.trans ?_, fun _ => .inr hbehind, ?_⟩
    · change [newline] :: tokens .block l = [newline] :: tokens .block (star :: l)
      rw [tokens, next_star hl, List.nil_append]
    · change IsRegular (Place.next .block star l).2 l
      rw [next_star hl]
      exact hrest.2
  have hblock : Place.next .block x l = ([], .block) := by
    rw [Place.next, if_neg hnewline, if_neg fun hx => hstar hx.1]
  have hlast := hrest.2
  rw [hblock] at hlast
  rw [State.next, if_neg hslash, if_neg hstar, if_neg hnewline]
  refine ⟨htokens.trans ?_, hlast⟩
  rw [tokens, hblock]
  rfl

/-- A byte of a regular input takes the state on, with the tokens that are appended for it. -/
theorem State.next_continues {state : State} {x : UInt8} {l : Bytes}
    (h : IsRegular state.place (state.ahead ++ x :: l)) : state.Continues (x :: l) (state.next x) l := by
  cases state with
  | content => exact next_content h
  | escape => exact ⟨rfl, h.2.2⟩
  | doubleQuote => exact next_string (by decide) rfl rfl rfl rfl (fun _ => rfl) h
  | doubleQuoteEscape => exact ⟨rfl, h.2.2⟩
  | singleQuote => exact next_string (by decide) rfl rfl rfl rfl (fun _ => rfl) h
  | singleQuoteEscape => exact ⟨rfl, h.2.2⟩
  | comment => exact next_comment h
  | slash => exact next_slash h
  | multilineComment => exact next_multilineComment h
  | multilineCommentStar => exact next_multilineCommentStar h

/-- Nothing is kept back at the end of a regular input. -/
theorem State.tokens_ahead {state : State} (h : IsRegular state.place state.ahead) :
    tokens state.place state.ahead = [] := by
  cases state with
  | escape => exact absurd rfl (h.1.1 rfl)
  | doubleQuoteEscape => exact absurd rfl (h.1 rfl)
  | singleQuoteEscape => exact absurd rfl (h.1 rfl)
  | slash => rcases h.1.2 rfl with hx | hx <;> cases hx
  | _ => rfl

/-! ## Boundaries -/

/-- So many bytes are those of the first tokens. -/
def IsBoundary (ts : List Bytes) (m : ℕ) : Prop :=
  ∃ before after, ts = before ++ after ∧ before.flatten.length = m

theorem isBoundary_zero (ts : List Bytes) : IsBoundary ts 0 := ⟨[], ts, rfl, rfl⟩

theorem isBoundary_length (ts : List Bytes) : IsBoundary ts ts.flatten.length :=
  ⟨ts, [], (List.append_nil ts).symm, rfl⟩

theorem isBoundary_append_iff (taken rest : List Bytes) (m : ℕ) :
    IsBoundary (taken ++ rest) (taken.flatten.length + m) ↔ IsBoundary rest m := by
  constructor
  · rintro ⟨before, after, heq, hlen⟩
    rcases List.append_eq_append_iff.1 heq with ⟨l, rfl, rfl⟩ | ⟨l, rfl, rfl⟩
    · rw [List.flatten_append, List.length_append] at hlen
      exact ⟨l, after, rfl, Nat.add_left_cancel hlen⟩
    · rw [List.flatten_append, List.length_append] at hlen
      obtain rfl : m = 0 := by omega
      exact isBoundary_zero rest
  · rintro ⟨before, after, rfl, rfl⟩
    exact ⟨taken ++ before, after, (List.append_assoc ..).symm, by
      rw [List.flatten_append, List.length_append]⟩

/-- Within a token, there is none. -/
theorem not_isBoundary {first : List Bytes} {token : Bytes} {rest : List Bytes} {m : ℕ}
    (hfirst : first.flatten.length < m) (htoken : m < first.flatten.length + token.length) :
    ¬ IsBoundary (first ++ token :: rest) m := by
  rintro ⟨before, after, heq, hlen⟩
  rcases List.append_eq_append_iff.1 heq with ⟨l, rfl, hl⟩ | ⟨l, rfl, -⟩
  · rw [List.flatten_append, List.length_append] at hlen
    cases l with
    | nil =>
      rw [List.flatten_nil, List.length_nil] at hlen
      omega
    | cons t l =>
      obtain ⟨rfl, -⟩ := List.cons.inj hl
      rw [List.flatten_cons, List.length_append] at hlen
      omega
  · rw [List.flatten_append, List.length_append] at hfirst
    omega

/-! ## The reader -/

/-- Each read of the input gives bytes, or an error. -/
def HasBytes (s : Source) : Prop := ∀ mb ∈ s.segments, MultiBuffer.bytes mb ≠ []

/-- A byte that is to come is read. -/
theorem readByte_cons {br : BufferedReader} {x : UInt8} {l : Bytes} (hbytes : br.bytes = x :: l)
    (hsegments : HasBytes br.reader) : ∃ br', br.readByte = (.ok x, br') ∧ br'.bytes = l ∧
      HasBytes br'.reader := by
  rw [BufferedReader.readByte, BufferedReader.read]
  cases hempty : MultiBuffer.isEmpty br.buffer with
  | false =>
    obtain ⟨y, rest, hbuffer⟩ :=
      List.exists_cons_of_ne_nil ((MultiBuffer.isEmpty_eq_false_iff _).1 hempty)
    rw [BufferedReader.bytes, hbuffer, List.cons_append] at hbytes
    obtain ⟨rfl, rfl⟩ := List.cons.inj hbytes
    refine ⟨{ br with buffer := (MultiBuffer.splitBytes br.buffer 1).1 }, ?_, ?_, hsegments⟩
    · simp [hbuffer]
    · simp [BufferedReader.bytes, hbuffer]
  | true =>
    rw [BufferedReader.bytes, (MultiBuffer.isEmpty_iff _).1 hempty, List.nil_append,
      Source.bytes] at hbytes
    rw [Source.readMultiBuffer]
    cases hs : br.reader.segments with
    | nil =>
      rw [hs] at hbytes
      cases hbytes
    | cons mb segments =>
      obtain ⟨y, rest, hmb⟩ := List.exists_cons_of_ne_nil
        (hsegments mb (by rw [hs]; exact List.mem_cons_self))
      rw [hs, List.flatMap_cons, hmb, List.cons_append] at hbytes
      obtain ⟨rfl, rfl⟩ := List.cons.inj hbytes
      refine ⟨⟨(MultiBuffer.splitBytes mb 1).1, { br.reader with segments }⟩, ?_, ?_, fun b hb => ?_⟩
      · simp [hmb]
      · simp [BufferedReader.bytes, Source.bytes, hmb]
      · exact hsegments b (by rw [hs]; exact List.mem_cons_of_mem _ hb)

/-- Once all is read, there is an error. -/
theorem readByte_nil {br : BufferedReader} (hbytes : br.bytes = []) (hsegments : HasBytes br.reader) :
    ∃ err, br.readByte = (.error err, br) := by
  obtain ⟨hbuffer, hrest⟩ := List.append_eq_nil_iff.1 hbytes
  have hs : br.reader.segments = [] := by
    cases hs : br.reader.segments with
    | nil => rfl
    | cons mb segments =>
      rw [Source.bytes, hs, List.flatMap_cons] at hrest
      exact absurd (List.append_eq_nil_iff.1 hrest).1
        (hsegments mb (by rw [hs]; exact List.mem_cons_self))
  refine ⟨br.reader.err, ?_⟩
  simp [BufferedReader.readByte, BufferedReader.read, Source.readMultiBuffer,
    (MultiBuffer.isEmpty_iff _).2 hbuffer, hs]

/-- The reader has these tokens to return. -/
structure Reader.Holds (r : Reader) (ts : List Bytes) : Prop where
  pending : r.pending = []
  segments : HasBytes r.br.reader
  regular : IsRegular r.state.place (r.state.ahead ++ r.br.bytes)
  tokens : ts = tokens r.state.place (r.state.ahead ++ r.br.bytes)

/-- How a buffer of `n` bytes, of which `filled` are, ends up with these tokens in addition. -/
inductive Ends (n filled : ℕ) (taken rest : List Bytes) : Prop
  | full (h : filled + taken.flatten.length = n)
  | done (h : filled + taken.flatten.length ≤ n) (hrest : rest = [])
  /-- The last token exceeds it. -/
  | exceeded (first : List Bytes) (token : Bytes) (heq : taken = first ++ [token])
    (hfirst : filled + first.flatten.length < n)
    (htoken : n < filled + first.flatten.length + token.length)

/-- A buffer ends up as it does when one token is appended first. -/
theorem Ends.cons {n filled : ℕ} {out : Bytes} {taken rest : List Bytes}
    (h : Ends n (filled + out.length) taken rest) : Ends n filled (appended out ++ taken) rest := by
  have hlen (l : List Bytes) : (appended out ++ l).flatten.length = out.length + l.flatten.length := by
    rw [List.flatten_append, List.length_append, flatten_appended]
  rcases h with hfull | ⟨hle, hrest⟩ | ⟨first, token, rfl, hfirst, htoken⟩
  · exact .full (by rw [hlen]; omega)
  · exact .done (by rw [hlen]; omega) hrest
  · exact .exceeded (appended out ++ first) token (List.append_assoc ..).symm (by rw [hlen]; omega)
      (by rw [hlen]; omega)

/-- A buffer that is full is returned. -/
theorem Reader.readLoop_full {n : ℕ} {r : Reader} {p : Bytes} (h : n ≤ p.length) (fuel : ℕ) :
    readLoop n fuel r p = ((p, none), r) := by
  cases fuel with
  | zero => rfl
  | succ fuel => rw [readLoop, if_neg (Nat.not_lt.2 h)]

theorem Reader.readLoop_spec {n fuel : ℕ} {r : Reader} {ts : List Bytes} (h : r.Holds ts)
    (hfuel : r.steps < fuel) {p : Bytes} (hp : p.length ≤ n) :
    ∃ taken rest, ts = taken ++ rest ∧ (readLoop n fuel r p).1.1 = p ++ taken.flatten ∧
      (readLoop n fuel r p).2.Holds rest ∧ Ends n p.length taken rest := by
  -- By induction on the fuel, of which each byte that is read uses one; the tokens are those of the
  -- bytes that the state holds back, and of those to come.
  induction fuel generalizing r ts p with
  | zero => exact absurd hfuel (Nat.not_lt_zero _)
  | succ fuel ih =>
    rw [readLoop]
    rcases Nat.lt_or_eq_of_le hp with hroom | hfull
    swap
    · rw [if_neg (by omega)]
      exact ⟨[], ts, rfl, (List.append_nil p).symm, h, .full hfull⟩
    rw [if_pos hroom, if_neg (by rw [h.pending]; exact Nat.lt_irrefl 0)]
    rcases hbytes : r.br.bytes with - | ⟨x, l⟩
    · -- the input is at its end
      obtain ⟨err, hbyte⟩ := readByte_nil hbytes h.segments
      have hts : ts = [] := by
        have hregular := h.regular
        rw [hbytes, List.append_nil] at hregular
        rw [h.tokens, hbytes, List.append_nil, State.tokens_ahead hregular]
      rw [hbyte]
      exact ⟨[], ts, rfl, (List.append_nil p).symm, h, .done hp hts⟩
    obtain ⟨br, hbyte, hrest, hsegments⟩ := readByte_cons hbytes h.segments
    have hless := readByte_steps hbyte
    have hregular := h.regular
    rw [hbytes] at hregular
    obtain ⟨htokens, hnext⟩ := State.next_continues hregular
    rw [hbyte]
    dsimp only
    have hholds : Reader.Holds { r with state := (r.state.next x).2, br }
        (Json.tokens (r.state.next x).2.place ((r.state.next x).2.ahead ++ l)) :=
      ⟨h.pending, hsegments, by rw [hrest]; exact hnext, by rw [hrest]⟩
    have hts : ts = appended (r.state.next x).1 ++
        Json.tokens (r.state.next x).2.place ((r.state.next x).2.ahead ++ l) := by
      rw [h.tokens, hbytes, htokens]
    set out := (r.state.next x).1
    by_cases hfits : (p ++ out).length ≤ n
    · obtain ⟨taken, rest, heq, hloop, hafter, hends⟩ := ih hholds (by
        simp only [steps] at hfuel ⊢
        omega) hfits
      refine ⟨appended out ++ taken, rest, by rw [hts, heq, List.append_assoc], ?_, hafter, ?_⟩
      · rw [hloop, List.flatten_append, flatten_appended, List.append_assoc]
      · rw [List.length_append] at hends
        exact hends.cons
    · -- the token exceeds the buffer, and the loop ends
      have hout : appended out = [out] := by
        rw [appended, if_neg]
        intro hnil
        rw [hnil, List.append_nil] at hfits
        exact hfits hp
      rw [List.length_append] at hfits
      refine ⟨[out], _, by rw [hts, hout], ?_, ?_, .exceeded [] out rfl hroom (by simpa using hfits)⟩
      · rw [readLoop_full (by rw [List.length_append]; omega), List.flatten_singleton]
      · rw [readLoop_full (by rw [List.length_append]; omega)]
        exact hholds


theorem Reader.read_spec {r : Reader} {ts : List Bytes} (h : r.Holds ts) (n : ℕ) :
    ∃ taken rest, ts = taken ++ rest ∧ (r.read n).1.1 = taken.flatten ∧
      (r.read n).2.Holds rest ∧ Ends n 0 taken rest :=
  readLoop_spec h (Nat.lt_succ_self _) (p := []) (Nat.zero_le n)

/-! ## All calls -/

/-- No byte is lost, or returned in excess, in calls with buffers of these sizes. -/
def Reader.Returns (r : Reader) (ts : List Bytes) (sizes : List ℕ) : Prop :=
  (∀ c ∈ (r.reads sizes).zip sizes, c.1.length ≤ c.2) ∧
  (r.reads sizes).flatten = ts.flatten.take sizes.sum

/-- No buffer ends within one of the tokens. -/
def EndsBetween (ts : List Bytes) (sizes : List ℕ) : Prop :=
  ∀ k, (sizes.take k).sum ≤ ts.flatten.length → IsBoundary ts (sizes.take k).sum

theorem endsBetween_nil (sizes : List ℕ) : EndsBetween [] sizes := by
  intro k hk
  rw [Nat.le_zero.1 hk]
  exact isBoundary_zero []

/-- The first buffer ends with the last of these tokens, the others among the rest. -/
theorem endsBetween_append_iff (taken rest : List Bytes) (sizes : List ℕ) :
    EndsBetween (taken ++ rest) (taken.flatten.length :: sizes) ↔ EndsBetween rest sizes := by
  have hsum (k : ℕ) : ((taken.flatten.length :: sizes).take (k + 1)).sum =
      taken.flatten.length + (sizes.take k).sum := by
    rw [List.take_succ_cons, List.sum_cons]
  have hlen : (taken ++ rest).flatten.length = taken.flatten.length + rest.flatten.length := by
    rw [List.flatten_append, List.length_append]
  constructor
  · intro h k hk
    have hnext := h (k + 1) (by rw [hsum, hlen]; omega)
    rwa [hsum, isBoundary_append_iff] at hnext
  · rintro h (- | k) hk
    · exact isBoundary_zero _
    · rw [hsum, hlen] at hk
      rw [hsum, isBoundary_append_iff]
      exact h k (by omega)

/-- So do all buffers from the one on that has room for all that is left. -/
theorem endsBetween_of_le {ts : List Bytes} {n : ℕ} (h : ts.flatten.length ≤ n) (sizes : List ℕ) :
    EndsBetween ts (n :: sizes) := by
  rintro (- | k) hk
  · exact isBoundary_zero ts
  · rw [List.take_succ_cons, List.sum_cons] at hk ⊢
    rw [show n + (sizes.take k).sum = ts.flatten.length by omega]
    exact isBoundary_length ts

theorem Reader.returns_cons_iff {r : Reader} {ts : List Bytes} {n : ℕ} {sizes : List ℕ} :
    r.Returns ts (n :: sizes) ↔ (r.read n).1.1.length ≤ n ∧
      (∀ c ∈ ((r.read n).2.reads sizes).zip sizes, c.1.length ≤ c.2) ∧
      (r.read n).1.1 ++ ((r.read n).2.reads sizes).flatten = ts.flatten.take (n + sizes.sum) := by
  rw [Returns, reads, List.zip_cons_cons, List.forall_mem_cons, List.flatten_cons, List.sum_cons,
    and_assoc]

theorem Reader.returns_iff (sizes : List ℕ) {r : Reader} {ts : List Bytes} (h : r.Holds ts) :
    r.Returns ts sizes ↔ EndsBetween ts sizes := by
  induction sizes generalizing r ts with
  | nil =>
    refine iff_of_true ⟨by simp [reads], by simp [reads]⟩ fun k _ => ?_
    rw [List.take_nil, List.sum_nil]
    exact isBoundary_zero ts
  | cons n sizes ih =>
    obtain ⟨taken, rest, rfl, hread, hafter, hends⟩ := read_spec h n
    have hrest := ih hafter
    rw [returns_cons_iff, hread]
    rcases hends with hfull | ⟨hle, rfl⟩ | ⟨first, token, rfl, hfirst, htoken⟩
    · obtain rfl : taken.flatten.length = n := by omega
      rw [endsBetween_append_iff, ← hrest, Returns, List.flatten_append, List.take_length_add_append,
        List.append_cancel_left_eq]
      exact and_iff_right le_rfl
    · -- nothing is left for the other calls
      obtain ⟨hfits, hflatten⟩ := hrest.2 (endsBetween_nil sizes)
      rw [List.append_nil]
      refine iff_of_true ⟨by omega, hfits, ?_⟩ (endsBetween_of_le (by omega) sizes)
      rw [hflatten, List.flatten_nil, List.take_nil, List.append_nil, List.take_of_length_le (by omega)]
    · rw [Nat.zero_add] at hfirst htoken
      have hlen : (first ++ [token]).flatten.length = first.flatten.length + token.length := by
        rw [List.flatten_append, List.length_append, List.flatten_singleton]
      refine iff_of_false (fun hreturns => ?_) fun hbetween => ?_
      · have hle := hreturns.1
        omega
      · have hbound := hbetween 1 (by
          rw [List.take_succ_cons, List.take_zero, List.sum_singleton, List.flatten_append,
            List.length_append]
          omega)
        rw [List.take_succ_cons, List.take_zero, List.sum_singleton, List.append_assoc] at hbound
        exact not_isBoundary hfirst htoken hbound

/-- The calls of a reader of an input with buffers of these sizes return no more bytes than fit, and
    as many bytes of the input without its comments as there is room for. -/
def Strips (s : Source) (sizes : List ℕ) : Prop :=
  (∀ c ∈ ((Reader.new s).reads sizes).zip sizes, c.1.length ≤ c.2) ∧
  ((Reader.new s).reads sizes).flatten = (strip s.bytes).take sizes.sum

end Gzv2ray.Json
