import Gzv2ray.Buf.Reader

/-!
# The reader of JSON files

Configurations are JSON with comments, which a reader takes out before they are decoded: it goes
through the input byte by byte, and appends what it keeps to the buffer of the caller.

* `State.next`: what is appended for a byte, and the state after it;
* `Reader.read`: a call with a buffer of some size; `readLoop_succ`: its loop ends.
-/

namespace Gzv2ray

/-- A byte. It is zero if none was read. -/
def BufferedReader.readByte (r : BufferedReader) : Except Error UInt8 × BufferedReader :=
  match r.read 1 with
  | (.ok out, r) => (.ok (out.headD 0), r)
  | (.error e, r) => (.error e, r)

namespace Json

/-! ## The states -/

abbrev newline : UInt8 := 10
abbrev doubleQuote : UInt8 := 34
abbrev hash : UInt8 := 35
abbrev singleQuote : UInt8 := 39
abbrev star : UInt8 := 42
abbrev slash : UInt8 := 47
abbrev backslash : UInt8 := 92

/-- The state of the parser. -/
inductive State
  | content
  | escape
  | doubleQuote
  | doubleQuoteEscape
  | singleQuote
  | singleQuoteEscape
  | comment
  | slash
  | multilineComment
  | multilineCommentStar
  deriving DecidableEq

/-- What is appended for a byte, and the state after it. -/
def State.next (state : State) (x : UInt8) : Bytes × State :=
  match state with
  | .content =>
    if x = Json.doubleQuote then ([x], .doubleQuote)
    else if x = Json.singleQuote then ([x], .singleQuote)
    else if x = backslash then ([], .escape)
    else if x = hash then ([], .comment)
    else if x = Json.slash then ([], .slash)
    else ([x], .content)
  | .escape => ([backslash, x], .content)
  | .doubleQuote =>
    if x = Json.doubleQuote then ([x], .content)
    else if x = backslash then ([], .doubleQuoteEscape)
    else ([x], .doubleQuote)
  | .doubleQuoteEscape => ([backslash, x], .doubleQuote)
  | .singleQuote =>
    if x = Json.singleQuote then ([x], .content)
    else if x = backslash then ([], .singleQuoteEscape)
    else ([x], .singleQuote)
  | .singleQuoteEscape => ([backslash, x], .singleQuote)
  | .comment => if x = newline then ([newline], .content) else ([], .comment)
  | .slash =>
    if x = Json.slash then ([], .comment)
    else if x = star then ([], .multilineComment)
    -- the state stays
    else ([Json.slash, x], .slash)
  | .multilineComment =>
    if x = star then ([], .multilineCommentStar)
    else if x = newline then ([newline], .multilineComment)
    else ([], .multilineComment)
  | .multilineCommentStar =>
    if x = Json.slash then ([], .content)
    else if x = star then ([], .multilineCommentStar)
    -- here, too
    else if x = newline then ([newline], .multilineCommentStar)
    else ([], .multilineComment)

/-! ## The reader -/

structure Reader where
  state : State := .content
  /-- Nothing is ever put here. -/
  pending : Bytes := []
  br : BufferedReader

namespace Reader

/-- The reader of an input. -/
def new (s : Source) : Reader := { br := { reader := s } }

/-- The loop of `Read`, for a buffer of `n` bytes that holds `p`. -/
def readLoop (n : ℕ) : ℕ → Reader → Bytes → (Bytes × Option Error) × Reader
  | 0, r, p => ((p, none), r)
  | fuel + 1, r, p =>
    if p.length < n then
      if 0 < r.pending.length then
        let max := min (n - p.length) r.pending.length
        readLoop n fuel { r with pending := r.pending.drop max } (p ++ r.pending.take max)
      else
        match r.br.readByte with
        | (.error err, br) => ((p, if p.length = 0 then some err else none), { r with br })
        | (.ok x, br) =>
          let (out, state) := r.state.next x
          readLoop n fuel { r with state, br } (p ++ out)
    else ((p, none), r)

/-- A bound for the number of the loop's iterations. -/
def steps (r : Reader) : ℕ :=
  r.pending.length + r.br.bytes.length + r.br.reader.segments.length

/-- Reads into a buffer of `n` bytes: the bytes that are returned, of any number, and the error. -/
def read (r : Reader) (n : ℕ) : (Bytes × Option Error) × Reader := readLoop n (r.steps + 1) r []

/-- What is returned by calls with buffers of these sizes. -/
def reads : Reader → List ℕ → List Bytes
  | _, [] => []
  | r, n :: sizes => (r.read n).1.1 :: reads (r.read n).2 sizes

/-! ## The loop ends -/

/-- A byte that is read was to come, or stands for a read of the input that gave none. -/
theorem readByte_steps {br br' : BufferedReader} {x : UInt8} (h : br.readByte = (.ok x, br')) :
    br'.bytes.length + br'.reader.segments.length < br.bytes.length + br.reader.segments.length := by
  rw [BufferedReader.readByte, BufferedReader.read] at h
  cases hempty : MultiBuffer.isEmpty br.buffer with
  | false =>
    have hne := List.length_pos_iff.2 ((MultiBuffer.isEmpty_eq_false_iff _).1 hempty)
    rw [hempty] at h
    obtain ⟨-, rfl⟩ := Prod.mk.inj h
    simp only [BufferedReader.bytes, MultiBuffer.splitBytes_fst_bytes, List.length_append,
      List.length_drop]
    omega
  | true =>
    rw [hempty] at h
    cases hsegments : br.reader.segments with
    | nil =>
      simp only [Bool.not_true, Bool.false_eq_true, if_false, Source.readMultiBuffer, hsegments] at h
      cases h
    | cons mb segments =>
      simp only [Bool.not_true, Bool.false_eq_true, if_false, Source.readMultiBuffer, hsegments] at h
      obtain ⟨-, rfl⟩ := Prod.mk.inj h
      simp only [BufferedReader.bytes, Source.bytes, MultiBuffer.splitBytes_fst_bytes, hsegments,
        List.flatMap_cons, List.length_append, List.length_drop, List.length_cons]
      omega

/-- Once there is fuel for its steps, the loop does not run out of it. -/
theorem readLoop_succ (n : ℕ) {fuel : ℕ} {r : Reader} (hfuel : r.steps < fuel) (p : Bytes) :
    readLoop n (fuel + 1) r p = readLoop n fuel r p := by
  induction fuel generalizing r p with
  | zero => exact absurd hfuel (Nat.not_lt_zero _)
  | succ fuel ih =>
    conv_lhs => rw [readLoop]
    conv_rhs => rw [readLoop]
    by_cases hroom : p.length < n
    · rw [if_pos hroom, if_pos hroom]
      by_cases hpending : 0 < r.pending.length
      · rw [if_pos hpending, if_pos hpending]
        refine ih ?_ _
        simp only [steps, List.length_drop] at hfuel ⊢
        omega
      · rw [if_neg hpending, if_neg hpending]
        rcases hbyte : r.br.readByte with ⟨err | x, br⟩
        · rfl
        · refine ih ?_ _
          have hless := readByte_steps hbyte
          simp only [steps] at hfuel ⊢
          omega
    · rw [if_neg hroom, if_neg hroom]

end Reader

end Json

end Gzv2ray
