import Gzv2ray.Buf.Copy

/-!
# What a copy tells of errors

A copy ends with the first error of its reader or its writer. The reader may
return an error together with data, which are written first.

* `copyAll`: a copy of what a reader returns, one read after the other, to a
  writer with an answer to the data of each read;
* `copyInternal_error`: the copies of a reader that returns either data or an
  error are among them;
* `copyAll_isTruthful_iff`: what is told is true just if the first error is the
  end of the reader or has a text that is not taken for it.
-/

namespace Gzv2ray

section

variable (reads : ℕ → MultiBuffer × Option Error) (writes : ℕ → Option Error)

/-- The loop, from the `n`-th read on. The fuel bounds the reads. -/
def copyFrom : ℕ → ℕ → Option CopyError
  | 0, _ => none
  | fuel + 1, n =>
    match if MultiBuffer.isEmpty (reads n).1 then none else writes n with
    | some werr => some (.write werr)
    | none =>
      match (reads n).2 with
      | some err => some (.read err)
      | none => copyFrom fuel (n + 1)

/-- Dumps what is read to a writer, as long as the fuel lasts. -/
def copyAll (fuel : ℕ) : Option CopyOutcome := (copyFrom reads writes fuel 0).map copyOutcome

/-- The error of a read, or of the writer that is given its data before. -/
def failure (n : ℕ) : Option CopyError :=
  if MultiBuffer.isEmpty (reads n).1 then (reads n).2.map .read
  else ((writes n).map .write).or ((reads n).2.map .read)

/-- The first error is that of a read, or of the writer that is given its data. -/
def FirstFailure (n : ℕ) (e : CopyError) : Prop :=
  failure reads writes n = some e ∧ ∀ m < n, failure reads writes m = none

/-- The end of the reader is no error, anything else is one. -/
def truth (e : CopyError) : CopyOutcome := if e = .read .eof then .ok else .error e

/-- Nil is told only at the end of the reader, when all that was read before is written, and an
    error only if it is the first one. -/
def IsTruthful (o : CopyOutcome) : Prop := ∃ n e, FirstFailure reads writes n e ∧ o = truth e

end

/-- The text of the error is not taken for the end of the reader, and can be looked at. -/
def CopyError.IsTold (e : CopyError) : Prop :=
  e = .read .eof ∨ e.text ≠ Error.eof.text ∧ 2 ≤ e.text.length ∧
    ¬ascii "io" <+: e.text ∧ ¬ascii "re" <+: e.text

instance (e : CopyError) : Decidable e.IsTold := inferInstanceAs (Decidable (_ ∨ _))

/-! ## The first error -/

variable {reads : ℕ → MultiBuffer × Option Error} {writes : ℕ → Option Error}

/-- The loop ends with the error of the read, or goes on. -/
theorem copyFrom_succ (fuel n : ℕ) : copyFrom reads writes (fuel + 1) n =
    (failure reads writes n).or (copyFrom reads writes fuel (n + 1)) := by
  rw [copyFrom, failure]
  by_cases hempty : MultiBuffer.isEmpty (reads n).1
  · rw [if_pos hempty, if_pos hempty]
    rcases (reads n).2 with - | err <;> rfl
  · rw [if_neg hempty, if_neg hempty]
    rcases writes n with - | werr
    · rcases (reads n).2 with - | err <;> rfl
    · rfl

theorem FirstFailure.unique {n n' : ℕ} {e e' : CopyError} (h : FirstFailure reads writes n e)
    (h' : FirstFailure reads writes n' e') : e = e' := by
  rcases Nat.lt_trichotomy n n' with hlt | rfl | hlt
  · exact absurd (h.1.symm.trans (h'.2 n hlt)) (Option.some_ne_none e)
  · exact Option.some.inj (h.1.symm.trans h'.1)
  · exact absurd (h'.1.symm.trans (h.2 n' hlt)) (Option.some_ne_none e')

/-- The loop ends with the first error, if the fuel lasts. -/
theorem copyFrom_eq_some_iff {fuel n : ℕ} {e : CopyError} :
    copyFrom reads writes fuel n = some e ↔ ∃ k < fuel, failure reads writes (n + k) = some e ∧
      ∀ m < k, failure reads writes (n + m) = none := by
  induction fuel generalizing n with
  | zero => exact iff_of_false nofun fun ⟨k, hk, _⟩ => Nat.not_lt_zero k hk
  | succ fuel ih =>
    rw [copyFrom_succ, Option.or_eq_some_iff, ih]
    constructor
    · rintro (h | ⟨hnone, k, hk, hfail, hbefore⟩)
      · exact ⟨0, Nat.succ_pos fuel, h, fun m hm => absurd hm (Nat.not_lt_zero m)⟩
      · refine ⟨k + 1, Nat.succ_lt_succ hk, by rwa [← Nat.add_assoc, Nat.add_right_comm], ?_⟩
        rintro (- | m) hm
        · exact hnone
        · rw [← Nat.add_assoc, Nat.add_right_comm]
          exact hbefore m (Nat.lt_of_succ_lt_succ hm)
    · rintro ⟨- | k, hk, hfail, hbefore⟩
      · exact .inl hfail
      · refine .inr ⟨hbefore 0 (Nat.succ_pos k), k, Nat.lt_of_succ_lt_succ hk, ?_, fun m hm => ?_⟩
        · rwa [Nat.add_right_comm, Nat.add_assoc]
        · rw [Nat.add_right_comm, Nat.add_assoc]
          exact hbefore (m + 1) (Nat.succ_lt_succ hm)

theorem copyAll_eq_some_iff {fuel : ℕ} {o : CopyOutcome} : copyAll reads writes fuel = some o ↔
    ∃ n < fuel, ∃ e, FirstFailure reads writes n e ∧ copyOutcome e = o := by
  rw [copyAll, Option.map_eq_some_iff]
  constructor
  · rintro ⟨e, he, rfl⟩
    obtain ⟨n, hn, hfail, hbefore⟩ := copyFrom_eq_some_iff.1 he
    rw [Nat.zero_add] at hfail
    exact ⟨n, hn, e, ⟨hfail, fun m hm => by simpa using hbefore m hm⟩, rfl⟩
  · rintro ⟨n, hn, e, hfirst, rfl⟩
    refine ⟨e, copyFrom_eq_some_iff.2 ⟨n, hn, by simpa using hfirst.1, fun m hm => ?_⟩, rfl⟩
    simpa using hfirst.2 m hm

/-! ## What is told -/

theorem firstTwo_eq_none_iff {text : Bytes} : firstTwo text = none ↔ text.length < 2 := by
  rcases text with - | ⟨a, - | ⟨b, rest⟩⟩ <;> simp [firstTwo]

theorem prefix_iff_firstTwo {text : Bytes} {a b : UInt8} :
    [a, b] <+: text ↔ firstTwo text = some (a, b) := by
  rcases text with - | ⟨c, - | ⟨d, rest⟩⟩
  · simp [firstTwo]
  · simp [firstTwo, List.cons_prefix_cons]
  · rw [firstTwo, Option.some.injEq, Prod.mk.injEq, List.cons_prefix_cons, List.cons_prefix_cons,
      and_iff_left List.nil_prefix, @eq_comm _ a, @eq_comm _ b]

/-- An error is told as it is just if its text is not taken for the end of the reader. -/
theorem copyOutcome_eq_truth_iff (e : CopyError) : copyOutcome e = truth e ↔ e.IsTold := by
  rw [truth, CopyError.IsTold]
  by_cases heof : e = .read .eof
  · rw [if_pos heof, heof]
    exact iff_of_true rfl (.inl rfl)
  rw [if_neg heof, or_iff_right heof, copyOutcome]
  by_cases htext : e.text = Error.eof.text
  · rw [if_pos (beq_iff_eq.2 htext)]
    exact iff_of_false (by simp) fun h => h.1 htext
  rw [if_neg (by rwa [beq_iff_eq]), and_iff_right htext]
  have hio : ascii "io" <+: e.text ↔ firstTwo e.text = some (0x69, 0x6f) := prefix_iff_firstTwo
  have hre : ascii "re" <+: e.text ↔ firstTwo e.text = some (0x72, 0x65) := prefix_iff_firstTwo
  rw [hio, hre, ← Nat.not_lt, ← firstTwo_eq_none_iff]
  rcases firstTwo e.text with - | ⟨a, b⟩
  · simp
  · simp only [Bool.or_eq_true, Bool.and_eq_true, beq_iff_eq, Option.some.injEq, Prod.mk.injEq,
      reduceCtorEq, not_false_eq_true, true_and, ← not_or]
    split_ifs with hsilent
    · exact iff_of_false (by simp) fun h => h hsilent
    · exact iff_of_true rfl hsilent

/-! ## Readers that return data or an error -/

section

variable {ρ : Type} (read : ρ → Outcome MultiBuffer × ρ)

/-- What a reader returns, one read after the other. -/
def readAt (r : ρ) : ℕ → MultiBuffer × Option Error
  | 0 =>
    match (read r).1 with
    | .ok mb => (mb, none)
    | .error e => ([], some e)
    | .panic => ([], none)
  | n + 1 => readAt (read r).2 n

/-- What a writer that answers in turn makes of the data of each read. -/
def writeAt (write : ℕ → Option Error) (r : ρ) : ℕ → Option Error
  | 0 => write 0
  | n + 1 =>
    if MultiBuffer.isEmpty (readAt read r 0).1 then writeAt write (read r).2 n
    else writeAt (fun k => write (k + 1)) (read r).2 n

theorem copyFrom_shift (fuel n : ℕ) : copyFrom reads writes fuel (n + 1) =
    copyFrom (fun k => reads (k + 1)) (fun k => writes (k + 1)) fuel n := by
  induction fuel generalizing n with
  | zero => rfl
  | succ fuel ih =>
    rw [copyFrom_succ, copyFrom_succ, ih]
    rfl

/-- The copy of a reader that does not panic is the one of what it returns. -/
theorem copyInternal_error (hread : ∀ r, (read r).1 ≠ .panic) (fuel : ℕ)
    (write : ℕ → Option Error) (r : ρ) : (copyInternal read fuel write r).error =
      copyFrom (readAt read r) (writeAt read write r) fuel 0 := by
  induction fuel generalizing write r with
  | zero => rfl
  | succ fuel ih =>
    rw [copyInternal, copyFrom, copyFrom_shift]
    have hnext : (fun k => readAt read r (k + 1)) = readAt read (read r).2 := rfl
    have hpanic := hread r
    rw [hnext]
    rcases hr : read r with ⟨mb | err | -, r'⟩
    · have hzero : readAt read r 0 = (mb, none) := by rw [readAt, hr]
      rw [hzero]
      dsimp only
      by_cases hempty : MultiBuffer.isEmpty mb
      · have hwrite : (fun k => writeAt read write r (k + 1)) = writeAt read write r' :=
          funext fun k => by rw [writeAt, hzero, if_pos hempty, hr]
        rw [if_pos hempty, if_pos hempty, ih, hwrite]
      · have hwrite : (fun k => writeAt read write r (k + 1)) =
            writeAt read (fun k => write (k + 1)) r' :=
          funext fun k => by rw [writeAt, hzero, if_neg hempty, hr]
        rw [if_neg hempty, if_neg hempty, writeAt]
        rcases write 0 with - | werr
        · exact (ih _ r').trans (by rw [hwrite])
        · rfl
    · have hzero : readAt read r 0 = ([], some err) := by rw [readAt, hr]
      rw [hzero]
      rfl
    · exact absurd (congrArg Prod.fst hr) hpanic

end

/-! ## The truth -/

/-- A copy never tells anything but the truth just if the first error, if there is one, is the end
    of the reader or has a text of two bytes or more that is not taken for it. -/
theorem copyAll_isTruthful_iff (reads : ℕ → MultiBuffer × Option Error)
    (writes : ℕ → Option Error) :
    (∀ fuel o, copyAll reads writes fuel = some o → IsTruthful reads writes o) ↔
      ∀ n e, FirstFailure reads writes n e → e.IsTold := by
  constructor
  · intro h n e hfirst
    obtain ⟨n', e', hfirst', heq⟩ :=
      h (n + 1) _ (copyAll_eq_some_iff.2 ⟨n, Nat.lt_succ_self n, e, hfirst, rfl⟩)
    rw [hfirst'.unique hfirst] at heq
    exact (copyOutcome_eq_truth_iff e).1 heq
  · intro h fuel o ho
    obtain ⟨n, -, e, hfirst, rfl⟩ := copyAll_eq_some_iff.1 ho
    exact ⟨n, e, hfirst, (copyOutcome_eq_truth_iff e).2 (h n e hfirst)⟩

/-- The writer is a closed pipe, and the copy returns nil although what was read is lost. -/
theorem closed_writer_untold :
    ¬∀ (reads : ℕ → MultiBuffer × Option Error) (writes : ℕ → Option Error) (fuel : ℕ)
      (o : CopyOutcome), copyAll reads writes fuel = some o → IsTruthful reads writes o := by
  intro h
  obtain ⟨n, e, hfirst, heq⟩ :=
    h (fun _ => ([⟨0, [1, 2], by decide⟩], none)) (fun _ => some .closedPipe) 1 .ok (by decide +kernel)
  have hfail : FirstFailure (fun _ => ([⟨0, [1, 2], by decide⟩], none)) (fun _ => some .closedPipe) 0
      (.write .closedPipe) := ⟨by decide +kernel, fun m hm => absurd hm (Nat.not_lt_zero m)⟩
  rw [hfirst.unique hfail] at heq
  exact absurd heq (by decide +kernel)

end Gzv2ray
