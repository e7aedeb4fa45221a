import Gzv2ray.Buf.Reader

/-!
# Copying

`copy` hands what a reader reads to a writer until one of them fails, and
returns nil where the text of the error says so. It looks at the text alone: the
error of a writer may be taken for the end of the reader.

What a reader hands over, up to its error, is `Hands`. A copy that a writer
interrupts can be taken up again from the reader it leaves (`copyInternal_stop`).
-/

namespace Gzv2ray

/-- An error of a copy: that of the reader, or that of the writer. -/
inductive CopyError
  | read (e : Error)
  | write (e : Error)
  deriving DecidableEq

def CopyError.text : CopyError → Bytes
  | read e => e.text
  | write e => e.text

/-- How a copy ends, as `copy` tells it. -/
inductive CopyOutcome
  | ok
  | error (e : CopyError)
  | panic
  deriving DecidableEq

/-- How a copy went: its error, if it did not panic, and what the writer was given,
    whatever it made of it. -/
structure Copied (ρ : Type) where
  error : Option CopyError
  written : List MultiBuffer
  reader : ρ

section

variable {ρ : Type} (read : ρ → Outcome MultiBuffer × ρ)

/-- The loop: reads and writes until one of them fails. The writer answers to its
    calls in turn. The fuel bounds the reads. -/
def copyInternal : ℕ → (ℕ → Option Error) → ρ → Copied ρ
  | 0, _, r => ⟨none, [], r⟩
  | fuel + 1, write, r =>
    match read r with
    | (.ok mb, r) =>
      if MultiBuffer.isEmpty mb then copyInternal fuel write r
      else
        match write 0 with
        | some e => ⟨some (.write e), [mb], r⟩
        | none =>
          let c := copyInternal fuel (fun k => write (k + 1)) r
          { c with written := mb :: c.written }
    | (.error e, r) => ⟨some (.read e), [], r⟩
    | (.panic, r) => ⟨none, [], r⟩

/-- The first two bytes of a text. A shorter text has none. -/
def firstTwo (text : Bytes) : Option (UInt8 × UInt8) :=
  match text with
  | a :: b :: _ => some (a, b)
  | _ => none

/-- What `copy` makes of an error: nil if its text is that of the end or starts with
    "io" or "re". A text of less than two bytes is a panic. -/
def copyOutcome (e : CopyError) : CopyOutcome :=
  if e.text == Error.eof.text then .ok
  else
    match firstTwo e.text with
    | none => .panic
    | some (a, b) =>
      if (a == 0x69 && b == 0x6f) || (a == 0x72 && b == 0x65) then .ok else .error e

theorem copyOutcome_error {e e' : CopyError} (h : copyOutcome e = .error e') : e' = e := by
  rw [copyOutcome] at h
  split at h
  · cases h
  · cases htwo : firstTwo e.text with
    | none => rw [htwo] at h; cases h
    | some t =>
      rw [htwo] at h
      dsimp only at h
      split at h <;> cases h
      rfl

/-- The error is lost. -/
def CopyError.IsSilent (e : CopyError) : Prop := copyOutcome e = .ok

instance (e : CopyError) : Decidable e.IsSilent := inferInstanceAs (Decidable (_ = _))

/-- Dumps a reader to a writer. -/
def copy (fuel : ℕ) (write : ℕ → Option Error) (r : ρ) : CopyOutcome × ρ :=
  let c := copyInternal read fuel write r
  match c.error with
  | none => (.panic, c.reader)
  | some e => (copyOutcome e, c.reader)

/-- The writer that takes everything. -/
def discard : ℕ → Option Error := fun _ => none

/-! ## What a reader hands over -/

variable {P : ρ → Bytes → Prop}

/-- The reader hands over the pieces within `n` reads, and then an error. After every
    read, `P` tells the bytes left of them. -/
inductive Hands (P : ρ → Bytes → Prop) : ℕ → ρ → List MultiBuffer → Error → ρ → Prop
  | error {r r' : ρ} {e : Error} : read r = (.error e, r') → Hands P 1 r [] e r'
  | skip {n : ℕ} {r r' r'' : ρ} {mb : MultiBuffer} {pieces : List MultiBuffer} {e : Error} :
    read r = (.ok mb, r') → MultiBuffer.isEmpty mb → P r' (pieces.flatMap MultiBuffer.bytes) →
      Hands P n r' pieces e r'' → Hands P (n + 1) r pieces e r''
  | piece {n : ℕ} {r r' r'' : ρ} {mb : MultiBuffer} {pieces : List MultiBuffer} {e : Error} :
    read r = (.ok mb, r') → ¬ MultiBuffer.isEmpty mb → P r' (pieces.flatMap MultiBuffer.bytes) →
      Hands P n r' pieces e r'' → Hands P (n + 1) r (mb :: pieces) e r''

variable {read} {n fuel : ℕ} {r r' : ρ} {pieces : List MultiBuffer} {e : Error}

/-- What a reader hands over is determined. -/
theorem Hands.unique {P' : ρ → Bytes → Prop} {n' : ℕ} {pieces' : List MultiBuffer} {e' : Error}
    {r₁ : ρ} (h : Hands read P n r pieces e r') (h' : Hands read P' n' r pieces' e' r₁) :
    pieces = pieces' ∧ e = e' ∧ r' = r₁ := by
  induction h generalizing n' pieces' with
  | error hread =>
    rcases h' with hread' | ⟨hread', -, -, -⟩ | ⟨hread', -, -, -⟩
    · cases hread.symm.trans hread'
      exact ⟨rfl, rfl, rfl⟩
    · cases hread.symm.trans hread'
    · cases hread.symm.trans hread'
  | skip hread hempty _ _ ih =>
    rcases h' with hread' | ⟨hread', -, -, hrest⟩ | ⟨hread', hempty', -, -⟩
    · cases hread.symm.trans hread'
    · cases hread.symm.trans hread'
      exact ih hrest
    · cases hread.symm.trans hread'
      exact absurd hempty hempty'
  | piece hread hempty _ _ ih =>
    rcases h' with hread' | ⟨hread', hempty', -, -⟩ | ⟨hread', -, -, hrest⟩
    · cases hread.symm.trans hread'
    · cases hread.symm.trans hread'
      exact absurd hempty' hempty
    · cases hread.symm.trans hread'
      obtain ⟨rfl, he, hr⟩ := ih hrest
      exact ⟨rfl, he, hr⟩

/-- A writer that takes all pieces is given them all. -/
theorem Hands.copyInternal_all (h : Hands read P n r pieces e r') (hfuel : n ≤ fuel)
    {write : ℕ → Option Error} (hwrite : ∀ k < pieces.length, write k = none) :
    copyInternal read fuel write r = ⟨some (.read e), pieces, r'⟩ := by
  induction h generalizing fuel write with
  | error hread =>
    obtain ⟨fuel, rfl⟩ := Nat.exists_eq_add_of_le' hfuel
    rw [copyInternal, hread]
  | skip hread hempty _ _ ih =>
    obtain ⟨fuel, rfl⟩ := Nat.exists_eq_add_of_le' (Nat.le_of_add_left_le hfuel)
    rw [copyInternal, hread]
    dsimp only
    rw [if_pos hempty, ih (Nat.le_of_succ_le_succ hfuel) hwrite]
  | piece hread hempty _ _ ih =>
    obtain ⟨fuel, rfl⟩ := Nat.exists_eq_add_of_le' (Nat.le_of_add_left_le hfuel)
    rw [copyInternal, hread]
    dsimp only
    rw [if_neg hempty, hwrite 0 (Nat.zero_lt_succ _)]
    dsimp only
    rw [ih (Nat.le_of_succ_le_succ hfuel) fun k hk => hwrite (k + 1) (Nat.succ_lt_succ hk)]

/-- Where a writer fails, the pieces that it was not given are left. -/
theorem Hands.copyInternal_stop (h : Hands read P n r pieces e r') (hfuel : n ≤ fuel)
    {write : ℕ → Option Error} {k : ℕ} (hk : k < pieces.length) {ew : Error}
    (hwrite : write k = some ew) (hfirst : ∀ j < k, write j = none) :
    ∃ n' r₁, n' ≤ n ∧ Hands read P n' r₁ (pieces.drop (k + 1)) e r' ∧
      P r₁ ((pieces.drop (k + 1)).flatMap MultiBuffer.bytes) ∧
      copyInternal read fuel write r = ⟨some (.write ew), pieces.take (k + 1), r₁⟩ := by
  induction h generalizing fuel write k with
  | error hread => exact absurd hk (Nat.not_lt_zero _)
  | skip hread hempty _ _ ih =>
    obtain ⟨fuel, rfl⟩ := Nat.exists_eq_add_of_le' (Nat.le_of_add_left_le hfuel)
    obtain ⟨n', r₁, hn, hrest, hleft, hcopy⟩ := ih (Nat.le_of_succ_le_succ hfuel) hk hwrite hfirst
    refine ⟨n', r₁, Nat.le_succ_of_le hn, hrest, hleft, ?_⟩
    rw [copyInternal, hread]
    dsimp only
    rw [if_pos hempty, hcopy]
  | @piece n r r₂ r'' mb pieces e hread hempty hP hrest ih =>
    obtain ⟨fuel, rfl⟩ := Nat.exists_eq_add_of_le' (Nat.le_of_add_left_le hfuel)
    rw [copyInternal, hread]
    dsimp only
    rw [if_neg hempty]
    cases k with
    | zero =>
      rw [hwrite]
      exact ⟨n, r₂, Nat.le_succ n, hrest, hP, by simp⟩
    | succ k =>
      rw [hfirst 0 (Nat.zero_lt_succ k)]
      obtain ⟨n', r₁, hn, hrest', hleft, hcopy⟩ := ih (Nat.le_of_succ_le_succ hfuel)
        (Nat.lt_of_succ_lt_succ hk) (show (fun j => write (j + 1)) k = some ew from hwrite)
        fun j hj => hfirst (j + 1) (Nat.succ_lt_succ hj)
      refine ⟨n', r₁, Nat.le_succ_of_le hn, hrest', hleft, ?_⟩
      dsimp only
      rw [hcopy, List.take_succ_cons]

/-- A writer either takes all pieces or fails first at one of them. -/
theorem writes_cases (write : ℕ → Option Error) (m : ℕ) :
    (∀ k < m, write k = none) ∨ ∃ k < m, ∃ e, write k = some e ∧ ∀ j < k, write j = none := by
  by_cases h : ∃ k, k < m ∧ (write k).isSome
  · obtain ⟨hlt, hsome⟩ := Nat.find_spec h
    obtain ⟨e, he⟩ := Option.isSome_iff_exists.1 hsome
    refine .inr ⟨Nat.find h, hlt, e, he, fun j hj => ?_⟩
    have hj' := Nat.find_min h hj
    simp only [not_and, Bool.not_eq_true, Option.isSome_eq_false_iff, Option.isNone_iff_eq_none] at hj'
    exact hj' (hj.trans hlt)
  · push Not at h
    exact .inl fun k hk => by simpa using h k hk

/-- A copy to a writer that takes everything ends where the reader does. -/
theorem Hands.copy_discard (h : Hands read P n r pieces e r') (hfuel : n ≤ fuel) :
    copy read fuel discard r = (copyOutcome (.read e), r') := by
  have hall : ∀ k < pieces.length, discard k = none := fun _ _ => rfl
  rw [copy, h.copyInternal_all hfuel hall]

/-- A copy ends where the reader does, or where the writer fails first. From there,
    the pieces left can be discarded. -/
theorem Hands.copy_cases (h : Hands read P n r pieces e r') (hfuel : n ≤ fuel)
    (write : ℕ → Option Error) :
    copy read fuel write r = (copyOutcome (.read e), r') ∨
    ∃ k < pieces.length, ∃ ew r₁, write k = some ew ∧ (∀ j < k, write j = none) ∧
      copy read fuel write r = (copyOutcome (.write ew), r₁) ∧
      P r₁ ((pieces.drop (k + 1)).flatMap MultiBuffer.bytes) ∧
      copy read fuel discard r₁ = (copyOutcome (.read e), r') := by
  rcases writes_cases write pieces.length with hall | ⟨k, hk, ew, hwrite, hfirst⟩
  · exact .inl (by rw [copy, h.copyInternal_all hfuel hall])
  · obtain ⟨n', r₁, hn, hrest, hleft, hcopy⟩ := h.copyInternal_stop hfuel hk hwrite hfirst
    exact .inr ⟨k, hk, ew, r₁, hwrite, hfirst, by rw [copy, hcopy], hleft,
      hrest.copy_discard (hn.trans hfuel)⟩

end

end Gzv2ray
