import Mathlib.Tactic

/-!
# Labelled transition systems

A transition system given by its initial states and a labelled step relation.
Safety is proved over *confined* runs, those all of whose states satisfy some
condition `C`: a bound that the run is assumed to respect, say. An invariant
has to be preserved by the steps between states of `C` only
(`Lts.Reach.invariant`).

`Lts.Exec` is a finite execution with the list of its labels, the form in which
a composite operation is shown to be a sequence of atomic steps. Where the steps
are those of a function, it is found by running it (`Lts.exec_of_run`).
-/

/-- A labelled transition system. -/
structure Lts (S A : Type*) where
  /-- The initial states. -/
  init : S → Prop
  /-- The steps. -/
  step : S → A → S → Prop

namespace Lts

variable {S A : Type*} (m : Lts S A)

/-- The states reachable by a run all of whose states satisfy `C`. -/
inductive Reach (C : S → Prop) : S → Prop
  | init {s : S} : m.init s → C s → Reach C s
  | step {s t : S} {a : A} : Reach C s → m.step s a t → C t → Reach C t

/-- The executions, with their labels. -/
inductive Exec : S → List A → S → Prop
  | nil (s : S) : Exec s [] s
  | cons {s t u : S} {a : A} {l : List A} : m.step s a t → Exec t l u → Exec s (a :: l) u

/-- The system with only the steps that satisfy `P`. -/
def restrict (P : S → A → Prop) : Lts S A := ⟨m.init, fun s a t => P s a ∧ m.step s a t⟩

variable {m} {C I : S → Prop}

/-- A confined run ends in a state of the condition. -/
theorem Reach.within {s : S} (h : m.Reach C s) : C s := by
  cases h with
  | init _ hC => exact hC
  | step _ _ hC => exact hC

/-- A run confined to a condition is confined to any weaker one. -/
theorem Reach.mono {C' : S → Prop} (hC : ∀ s, C s → C' s) {s : S} (h : m.Reach C s) :
    m.Reach C' s := by
  induction h with
  | init hs hs' => exact .init hs (hC _ hs')
  | step _ hs hs' ih => exact .step ih hs (hC _ hs')

/-- What holds initially and is preserved by the steps between states of `C`
    holds in every state of a confined run. -/
theorem Reach.invariant (hinit : ∀ s, m.init s → C s → I s)
    (hstep : ∀ s a t, C s → I s → m.step s a t → C t → I t) {s : S} (h : m.Reach C s) :
    I s := by
  induction h with
  | init hs hC => exact hinit _ hs hC
  | step hr hs hC ih => exact hstep _ _ _ hr.within ih hs hC

/-- A run of a system is one of another, seen through `f`, if each of its steps is seen as a step
    of the other or not at all. -/
theorem Reach.refines {S' A' : Type*} {m' : Lts S' A'} {f : S → S'} {C : S' → Prop}
    (hinit : ∀ s, m.init s → m'.init (f s))
    (hstep : ∀ s a t, m.Reach (fun s => C (f s)) s → m.step s a t →
      f t = f s ∨ ∃ b, m'.step (f s) b (f t)) {s : S} (h : m.Reach (fun s => C (f s)) s) :
    m'.Reach C (f s) := by
  induction h with
  | init hs hC => exact .init (hinit _ hs) hC
  | step hr hs hC ih =>
    rcases hstep _ _ _ hr hs with heq | ⟨b, hb⟩
    · rw [heq]
      exact ih
    · exact ih.step hb hC

/-- Executions compose. -/
theorem Exec.append {s t u : S} {l l' : List A} (h : m.Exec s l t) (h' : m.Exec t l' u) :
    m.Exec s (l ++ l') u := by
  induction h with
  | nil => exact h'
  | cons hs _ ih => exact .cons hs (ih h')

/-- A single step is an execution. -/
theorem Exec.single {s t : S} {a : A} (h : m.step s a t) : m.Exec s [a] t :=
  .cons h (.nil _)

/-- An execution of two lists is one of each. -/
theorem exec_append_iff {s u : S} {l l' : List A} :
    m.Exec s (l ++ l') u ↔ ∃ t, m.Exec s l t ∧ m.Exec t l' u := by
  refine ⟨fun h => ?_, fun ⟨_, h, h'⟩ => h.append h'⟩
  induction l generalizing s with
  | nil => exact ⟨s, .nil s, h⟩
  | cons a l ih =>
    rcases h with - | ⟨hstep, h⟩
    obtain ⟨t, hl, hl'⟩ := ih h
    exact ⟨t, .cons hstep hl, hl'⟩

/-- What is preserved by the steps is preserved by an execution. -/
theorem Exec.preserves {s t : S} {l : List A} (hstep : ∀ s a t, I s → m.step s a t → I t)
    (h : m.Exec s l t) (hs : I s) : I t := by
  induction h with
  | nil => exact hs
  | cons hfirst _ ih => exact ih (hstep _ _ _ hs hfirst)

/-- What is executed from a reachable state ends in one. -/
theorem Exec.reach {s t : S} {l : List A} (h : m.Exec s l t) (hC : ∀ s, C s)
    (hs : m.Reach C s) : m.Reach C t := by
  induction h with
  | nil => exact hs
  | cons hstep _ ih => exact ih (hs.step hstep (hC _))

/-- The state after some actions, if they can be taken one after the other. -/
def run (step : S → A → Option S) (s : S) : List A → Option S
  | [] => some s
  | a :: l => (step s a).bind fun s => run step s l

theorem exec_of_run {step : S → A → Option S} (hstep : ∀ s a t, step s a = some t → m.step s a t)
    {s t : S} {l : List A} (h : run step s l = some t) : m.Exec s l t := by
  induction l generalizing s with
  | nil =>
    obtain rfl := Option.some.inj h
    exact .nil s
  | cons a l ih =>
    obtain ⟨u, hu, hrest⟩ := Option.bind_eq_some_iff.1 h
    exact .cons (hstep s a u hu) (ih hrest)

/-- The states that actions go through, as far as they can be taken. -/
def trail (step : S → A → Option S) (s : S) : List A → List S
  | [] => [s]
  | a :: l => s :: (step s a).elim [] fun s => trail step s l

/-- Actions that are taken through states of a condition make a run confined to it. -/
theorem Reach.of_run {step : S → A → Option S} (hstep : ∀ s a t, step s a = some t → m.step s a t)
    {s t : S} {l : List A} (hs : m.init s) (hC : ∀ u ∈ trail step s l, C u) (h : run step s l = some t) :
    m.Reach C t := by
  have hfirst (s : S) (l : List A) : s ∈ trail step s l := by
    cases l <;> exact List.mem_cons_self
  have hreach : m.Reach C s := .init hs (hC s (hfirst s l))
  clear hs
  induction l generalizing s with
  | nil =>
    obtain rfl := Option.some.inj h
    exact hreach
  | cons a l ih =>
    obtain ⟨u, hu, hrest⟩ := Option.bind_eq_some_iff.1 h
    rw [trail, hu] at hC
    exact ih (fun v hv => hC v (List.mem_cons_of_mem _ hv)) hrest
      (hreach.step (hstep s a u hu) (hC u (List.mem_cons_of_mem _ (hfirst u l))))

end Lts
