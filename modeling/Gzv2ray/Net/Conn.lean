import Gzv2ray.Buf.Reader

/-!
# Conversations over a connection

What a party does on its side of a connection, one read or write after another
(`Conn`): the bytes it writes, how it ends, and what it leaves to be read. The
connection answers each write with an error or not.

`Conn.bind_eq_ok` takes a party that ends well apart.
-/

namespace Gzv2ray

/-- The side of a party: what it reads from, and what the connection answers to its
    writes. -/
structure Side where
  reader : BufferedReader
  answer : ℕ → Option Error

/-- What a party does: the bytes it writes, how it ends, and its side afterwards. -/
def Conn (α : Type) := Side → Bytes × Outcome α × Side

namespace Conn

variable {α β : Type}

instance : Monad Conn where
  pure a s := ([], .ok a, s)
  bind x f s :=
    match x s with
    | (w, .ok a, s) =>
      let (w', out, s) := f a s
      (w ++ w', out, s)
    | (w, .error e, s) => (w, .error e, s)
    | (w, .panic, s) => (w, .panic, s)

def error (e : Error) : Conn α := fun s => ([], .error e, s)

/-- The value of an outcome, or its failure. -/
def ofOutcome (out : Outcome α) : Conn α := fun s => ([], out, s)

/-- Reads, from the bytes that come. -/
def read (f : BufferedReader → Except Error α × BufferedReader) : Conn α := fun s =>
  match f s.reader with
  | (.ok a, reader) => ([], .ok a, { s with reader })
  | (.error e, reader) => ([], .error e, { s with reader })

/-- Writes all the bytes, or fails. -/
def write (b : Bytes) : Conn Unit := fun s =>
  (b, match s.answer 0 with | none => .ok () | some e => .error e,
    { s with answer := fun k => s.answer (k + 1) })

/-- Writes, and ignores the failure. -/
def tryWrite (b : Bytes) : Conn Unit := fun s =>
  (b, .ok (), { s with answer := fun k => s.answer (k + 1) })

/-- The error is caused by that of what is done. -/
def mapError (f : Error → Error) (x : Conn α) : Conn α := fun s =>
  match x s with
  | (w, .error e, s) => (w, .error (f e), s)
  | out => out

/-! ## Ends -/

variable {s s' : Side} {w : Bytes} {a a' : α} {b : β}

@[simp] theorem pure_eq_ok : (pure a : Conn α) s = (w, .ok a', s') ↔ w = [] ∧ a = a' ∧ s = s' := by
  constructor
  · rintro ⟨⟩
    exact ⟨rfl, rfl, rfl⟩
  · rintro ⟨rfl, rfl, rfl⟩
    rfl

theorem bind_eq_ok {x : Conn α} {f : α → Conn β} : (x >>= f) s = (w, .ok b, s') ↔
    ∃ w₁ a s₁ w₂, x s = (w₁, .ok a, s₁) ∧ f a s₁ = (w₂, .ok b, s') ∧ w = w₁ ++ w₂ := by
  change (match x s with
    | (w, .ok a, s) => (w ++ (f a s).1, (f a s).2.1, (f a s).2.2)
    | (w, .error e, s) => (w, .error e, s)
    | (w, .panic, s) => (w, .panic, s)) = _ ↔ _
  obtain ⟨w₁, out, s₁⟩ := x s
  cases out with
  | ok a =>
    constructor
    · intro h
      obtain ⟨h₁, h₂⟩ : w₁ ++ (f a s₁).1 = w ∧ (f a s₁).2 = (.ok b, s') := by simpa using h
      exact ⟨w₁, a, s₁, (f a s₁).1, rfl, by rw [← h₂], h₁.symm⟩
    · rintro ⟨_, _, _, w₂, ⟨⟩, hf, rfl⟩
      dsimp only
      rw [hf]
  | error e => simp
  | panic => simp

@[simp] theorem error_ne_ok {e : Error} : (error e : Conn α) s ≠ (w, .ok a, s') := nofun

theorem ofOutcome_eq_ok {out : Outcome α} :
    ofOutcome out s = (w, .ok a, s') ↔ w = [] ∧ out = .ok a ∧ s = s' := by
  rw [ofOutcome, Prod.mk.injEq, Prod.mk.injEq, eq_comm (a := [])]

theorem read_eq_ok {f : BufferedReader → Except Error α × BufferedReader}
    (h : read f s = (w, .ok a, s')) : w = [] ∧ f s.reader = (.ok a, s'.reader) := by
  rw [read] at h
  cases hf : f s.reader with
  | mk out r =>
    rw [hf] at h
    cases out with
    | ok a =>
      cases h
      exact ⟨rfl, rfl⟩
    | error e => cases h

theorem write_eq_ok {c : Bytes} (h : write c s = (w, .ok (), s')) : w = c ∧ s'.reader = s.reader := by
  obtain ⟨rfl, -, rfl⟩ : c = w ∧ _ ∧ _ = s' := by simpa [write] using h
  exact ⟨rfl, rfl⟩

theorem mapError_eq_ok {f : Error → Error} {x : Conn α} :
    mapError f x s = (w, .ok a, s') ↔ x s = (w, .ok a, s') := by
  rw [mapError]
  obtain ⟨w₁, out, s₁⟩ := x s
  cases out <;> simp

/-- What a party does, its side afterwards left open. -/
theorem run_eq {x : Conn α} {out : Outcome α} (hw : (x s).1 = w) (hout : (x s).2.1 = out) :
    x s = (w, out, (x s).2.2) := by
  subst hw hout
  rfl

end Conn

end Gzv2ray
