import Gzv2ray.Buf.Reader
import Gzv2ray.Lib.Rotation

/-!
# The replay filter

A `ReplayFilter` keeps what it has seen in two pools, and resets one of them, in
turn, at the first check that comes an interval after the last one that did. So
what it accepts follows from the times of the checks alone
(`ReplayFilter.accepted_eq`), and what it has accepted it rejects for an interval
(`ReplayFilter.check_window`).

The pools are cuckoo filters of another package, a parameter. They are assumed
to be exact sets (`CuckooFilter.IsExact`).
-/

namespace Gzv2ray

/-- The operations of a cuckoo filter. -/
structure CuckooFilter (F : Type) where
  newFilter : ℕ → F
  reset : F → F
  insertUnique : F → Bytes → Bool × F

/-- The filter is a set: it inserts what it lacks, and loses nothing. -/
structure CuckooFilter.IsExact {F : Type} (c : CuckooFilter F) (mem : F → Set Bytes) : Prop where
  newFilter (n) : mem (c.newFilter n) = ∅
  reset (f) : mem (c.reset f) = ∅
  insertUnique_fst (f b) : (c.insertUnique f b).1 = true ↔ b ∉ mem f
  insertUnique_snd (f b) : mem (c.insertUnique f b).2 = insert b (mem f)

def replayFilterCapacity : ℕ := 100000

/-- The filter of a time interval. Its pools are those of the first check. -/
structure ReplayFilter (F : Type) where
  poolA : F
  poolB : F
  poolSwap : Bool
  lastSwap : ℤ
  interval : ℤ

namespace ReplayFilter

variable {F : Type} (c : CuckooFilter F) (f : ReplayFilter F)

def new (interval : ℤ) : ReplayFilter F where
  poolA := c.newFilter replayFilterCapacity
  poolB := c.newFilter replayFilterCapacity
  poolSwap := false
  lastSwap := 0
  interval

/-- The first check creates the pools. -/
def start (now : ℤ) : ReplayFilter F :=
  if f.lastSwap = 0 then { f with
    lastSwap := now
    poolA := c.newFilter replayFilterCapacity
    poolB := c.newFilter replayFilterCapacity }
  else f

/-- Resets a pool, if the interval is over. -/
def swap (now : ℤ) : ReplayFilter F :=
  if now - f.lastSwap ≥ f.interval then
    if f.poolSwap then { f with poolA := c.reset f.poolA, poolSwap := !f.poolSwap, lastSwap := now }
    else { f with poolB := c.reset f.poolB, poolSwap := !f.poolSwap, lastSwap := now }
  else f

/-- The second pool is asked only if the first one lacks it. -/
def insertUnique (sum : Bytes) : Bool × ReplayFilter F :=
  let (a, poolA) := c.insertUnique f.poolA sum
  if a then
    let (b, poolB) := c.insertUnique f.poolB sum
    (b, { f with poolA, poolB })
  else (false, { f with poolA })

/-- It was not seen before. -/
def check (now : ℤ) (sum : Bytes) : Bool × ReplayFilter F :=
  ((f.start c now).swap c now).insertUnique c sum

/-! ## Checks one after another -/

/-- What is accepted, by checks at the given times. -/
def accepted : ReplayFilter F → List (ℤ × Bytes) → List Bytes
  | _, [] => []
  | f, (now, sum) :: rest =>
    let (ok, f) := f.check c now sum
    if ok then sum :: accepted f rest else accepted f rest

/-- What is checked, with the number of pools that were reset before, given the time that
    the last one was, or zero. -/
def notes (interval : ℤ) : ℤ → ℕ → List (ℤ × Bytes) → Notes Bytes
  | _, _, [] => []
  | last, g, (now, sum) :: rest =>
    let last := if last = 0 then now else last
    let g := if now - last ≥ interval then g + 1 else g
    (sum, g) :: notes interval (if now - last ≥ interval then now else last) g rest

variable {c f} {mem : F → Set Bytes} {l : Notes Bytes} {g : ℕ}

/-- The pools, as sets. -/
def sets (mem : F → Set Bytes) (f : ReplayFilter F) : Rotating Bytes :=
  ⟨mem f.poolA, mem f.poolB, f.poolSwap⟩

/-- The pools are those that the notes lead to. -/
def Follows (mem : F → Set Bytes) (f : ReplayFilter F) (l : Notes Bytes) (g : ℕ) : Prop :=
  if f.lastSwap = 0 then l = [] ∧ g = 0 ∧ f.poolSwap = false else (f.sets mem).Reflects l g

theorem Follows.start (hc : c.IsExact mem) (h : f.Follows mem l g) (now : ℤ) :
    ((f.start c now).sets mem).Reflects l g := by
  rw [Follows] at h
  rw [ReplayFilter.start]
  split at h
  · rename_i hlast
    obtain ⟨rfl, rfl, hswap⟩ := h
    rw [if_pos hlast, sets, hc.newFilter, hswap]
    exact Rotating.reflects_empty
  · rename_i hlast
    rwa [if_neg hlast]

/-- An interval that is over starts a generation. -/
theorem swap_reflects (hc : c.IsExact mem) (h : (f.sets mem).Reflects l g) (now : ℤ) :
    ((f.swap c now).sets mem).Reflects l (if now - f.lastSwap ≥ f.interval then g + 1 else g) := by
  rw [swap]
  split
  · have hrotate : (f.sets mem).rotate = ⟨if f.poolSwap then ∅ else mem f.poolA,
        if f.poolSwap then mem f.poolB else ∅, !f.poolSwap⟩ := by
      rw [Rotating.rotate, sets]
      cases f.poolSwap <;> rfl
    have := hrotate ▸ h.rotate
    split
    · rename_i hswap
      simpa [sets, hc.reset, hswap] using this
    · rename_i hswap
      simpa [sets, hc.reset, hswap] using this
  · exact h

theorem insertUnique_spec (hc : c.IsExact mem) (sum : Bytes) :
    ((f.insertUnique c sum).1 = true ↔ (f.sets mem).IsFresh sum) ∧
      (f.insertUnique c sum).2.sets mem = (f.sets mem).note sum ∧
      (f.insertUnique c sum).2.lastSwap = f.lastSwap ∧
      (f.insertUnique c sum).2.interval = f.interval := by
  have hA := hc.insertUnique_fst f.poolA sum
  have hA' := hc.insertUnique_snd f.poolA sum
  have hB := hc.insertUnique_fst f.poolB sum
  have hB' := hc.insertUnique_snd f.poolB sum
  rw [insertUnique]
  generalize c.insertUnique f.poolA sum = A at hA hA'
  generalize c.insertUnique f.poolB sum = B at hB hB'
  obtain ⟨a, poolA⟩ := A
  obtain ⟨b, poolB⟩ := B
  dsimp only at hA hA' hB hB' ⊢
  split
  · rename_i ha
    refine ⟨hB.trans ?_, ?_, rfl, rfl⟩
    · rw [Rotating.IsFresh, and_iff_right (show sum ∉ (f.sets mem).fst from hA.1 ha)]
      rfl
    · rw [sets, Rotating.note, hA', hB']
      congr 1
      ext x
      simp [sets, hA.1 ha, or_comm]
  · rename_i ha
    have hmem : sum ∈ mem f.poolA := not_not.1 fun h => ha (hA.2 h)
    refine ⟨by simp [Rotating.IsFresh, sets, hmem], ?_, rfl, rfl⟩
    rw [sets, Rotating.note, hA']
    congr 1
    ext x
    simp [sets, hmem]

theorem start_lastSwap (now : ℤ) :
    (f.start c now).lastSwap = if f.lastSwap = 0 then now else f.lastSwap := by
  rw [start]
  split <;> rfl

@[simp] theorem start_interval (now : ℤ) : (f.start c now).interval = f.interval := by
  rw [start]
  split <;> rfl

theorem swap_lastSwap (now : ℤ) :
    (f.swap c now).lastSwap = if now - f.lastSwap ≥ f.interval then now else f.lastSwap := by
  rw [swap]
  split
  · split <;> rfl
  · rfl

@[simp] theorem swap_interval (now : ℤ) : (f.swap c now).interval = f.interval := by
  rw [swap]
  split
  · split <;> rfl
  · rfl

/-- A check, in the generation that it is in, notes what it is given. -/
theorem check_spec (hc : c.IsExact mem) (h : f.Follows mem l g) {now last : ℤ} (hnow : 0 < now)
    (hlast : last = if f.lastSwap = 0 then now else f.lastSwap) {g' : ℕ}
    (hg : g' = if now - last ≥ f.interval then g + 1 else g) (sum : Bytes) :
    ((f.check c now sum).1 = true ↔ ¬ l.Remembers g' sum) ∧
      (f.check c now sum).2.Follows mem (l ++ [(sum, g')]) g' ∧
      (f.check c now sum).2.lastSwap = (if now - last ≥ f.interval then now else last) ∧
      (f.check c now sum).2.interval = f.interval := by
  have hswap := swap_reflects hc (h.start hc now) now
  rw [start_lastSwap, start_interval, ← hlast, ← hg] at hswap
  obtain ⟨hfresh, hsets, hlast', hinterval⟩ :=
    insertUnique_spec (f := (f.start c now).swap c now) hc sum
  rw [swap_lastSwap, start_lastSwap, start_interval, ← hlast] at hlast'
  rw [swap_interval, start_interval] at hinterval
  refine ⟨hfresh.trans (hswap.isFresh_iff sum), ?_, hlast', hinterval⟩
  have hne : (f.check c now sum).2.lastSwap ≠ 0 := by
    rw [check, hlast']
    split
    · exact hnow.ne'
    · rw [hlast]
      split
      · exact hnow.ne'
      · assumption
  rw [Follows, if_neg hne, check, hsets]
  exact hswap.note sum

/-- What is accepted follows from the times of the checks. -/
theorem accepted_follows (hc : c.IsExact mem) (calls : List (ℤ × Bytes))
    (hpos : ∀ call ∈ calls, 0 < call.1) (h : f.Follows mem l g) :
    accepted c f calls = Notes.accepted l (notes f.interval f.lastSwap g calls) := by
  induction calls generalizing f l g with
  | nil => rfl
  | cons call calls ih =>
    obtain ⟨now, sum⟩ := call
    obtain ⟨hok, hfollows, hlast, hinterval⟩ :=
      check_spec hc h (hpos (now, sum) List.mem_cons_self) rfl rfl sum
    have hrest := ih (fun call hcall => hpos call (List.mem_cons_of_mem _ hcall)) hfollows
    rw [hlast, hinterval] at hrest
    simp only [accepted, notes, Notes.accepted]
    rw [hrest]
    generalize (if f.lastSwap = 0 then now else f.lastSwap) = last at hok ⊢
    generalize (if now - last ≥ f.interval then g + 1 else g) = g' at hok ⊢
    by_cases hremembers : l.Remembers g' sum
    · rw [if_pos hremembers, if_neg fun h => hok.1 h hremembers]
    · rw [if_neg hremembers, if_pos (hok.2 hremembers)]

/-- What a new filter accepts follows from the times of the checks. -/
theorem accepted_eq (hc : c.IsExact mem) (interval : ℤ) (calls : List (ℤ × Bytes))
    (hpos : ∀ call ∈ calls, 0 < call.1) :
    accepted c (new c interval) calls = Notes.accepted [] (notes interval 0 0 calls) :=
  accepted_follows hc calls hpos ((if_pos rfl).mpr ⟨rfl, rfl, rfl⟩)

/-! ## What was accepted of late -/

/-- The filter after checks. -/
def run (c : CuckooFilter F) (f : ReplayFilter F) (calls : List (ℤ × Bytes)) : ReplayFilter F :=
  calls.foldl (fun f call => (f.check c call.1 call.2).2) f

theorem run_append (calls calls' : List (ℤ × Bytes)) :
    run c f (calls ++ calls') = run c (run c f calls) calls' := List.foldl_append

@[simp] theorem check_interval (now : ℤ) (sum : Bytes) :
    (f.check c now sum).2.interval = f.interval := by
  have hswap : ((f.start c now).swap c now).interval = f.interval := by
    rw [swap_interval, start_interval]
  rw [check, insertUnique]
  split
  split
  · split
    exact hswap
  · exact hswap

@[simp] theorem run_interval (calls : List (ℤ × Bytes)) : (run c f calls).interval = f.interval := by
  induction calls generalizing f with
  | nil => rfl
  | cons call calls ih => exact ih.trans (check_interval call.1 call.2)

/-- The pools follow some notes, whatever was checked. -/
theorem exists_follows (hc : c.IsExact mem) (calls : List (ℤ × Bytes))
    (hpos : ∀ call ∈ calls, 0 < call.1) (h : f.Follows mem l g) :
    ∃ l' g', (run c f calls).Follows mem l' g' := by
  induction calls generalizing f l g with
  | nil => exact ⟨l, g, h⟩
  | cons call calls ih =>
    obtain ⟨-, hfollows, -, -⟩ := check_spec hc h (hpos call List.mem_cons_self) rfl rfl call.2
    exact ih (fun call hcall => hpos call (List.mem_cons_of_mem _ hcall)) hfollows

/-- It was noted in the generation `g₀` at the time `t`, as it was not remembered, and at most
    one pool was reset since. -/
structure Keeps (mem : F → Set Bytes) (f : ReplayFilter F) (t : ℤ) (sum : Bytes) (l : Notes Bytes)
    (g₀ g : ℕ) : Prop where
  follows : f.Follows mem l g
  lastSwap : f.lastSwap ≠ 0
  noted : (sum, g₀) ∈ l
  new : Odd g₀ → ∀ k, g₀ = k + 1 → (sum, k) ∉ l
  reset : g = g₀ ∨ g = g₀ + 1 ∧ t ≤ f.lastSwap

/-- The generation of the next check, and the time of the last reset then. -/
theorem Keeps.next {t now : ℤ} {sum : Bytes} {g₀ : ℕ} (h : f.Keeps mem t sum l g₀ g)
    (hnow : t ≤ now) (hwindow : now - t < f.interval) :
    (if now - f.lastSwap ≥ f.interval then g + 1 else g) = g₀ ∨
      (if now - f.lastSwap ≥ f.interval then g + 1 else g) = g₀ + 1 ∧
        t ≤ if now - f.lastSwap ≥ f.interval then now else f.lastSwap := by
  split
  · rename_i hswap
    rcases h.reset with rfl | ⟨rfl, hlast⟩
    · exact .inr ⟨rfl, hnow⟩
    · omega
  · exact h.reset

/-- It is rejected, and kept, by checks in the interval. -/
theorem Keeps.check (hc : c.IsExact mem) {t now : ℤ} {sum : Bytes} {g₀ : ℕ}
    (h : f.Keeps mem t sum l g₀ g) (hpos : 0 < now) (hnow : t ≤ now)
    (hwindow : now - t < f.interval) (x : Bytes) :
    (f.check c now sum).1 = false ∧
      ∃ l' g', (f.check c now x).2.Keeps mem t sum l' g₀ g' := by
  have hlast : f.lastSwap = if f.lastSwap = 0 then now else f.lastSwap := by rw [if_neg h.lastSwap]
  have hnext := h.next hnow hwindow
  generalize hg : (if now - f.lastSwap ≥ f.interval then g + 1 else g) = g' at hnext
  generalize hl : (if now - f.lastSwap ≥ f.interval then now else f.lastSwap) = last' at hnext
  constructor
  · obtain ⟨hok, -⟩ := check_spec hc h.follows hpos hlast hg.symm sum
    have hremembers : l.Remembers g' sum := by
      rcases hnext with rfl | ⟨rfl, -⟩
      · exact .inl h.noted
      · exact Notes.remembers_succ h.noted h.new
    rw [← Bool.not_eq_true, hok]
    exact fun hnot => hnot hremembers
  · obtain ⟨-, hfollows, hlast', -⟩ := check_spec hc h.follows hpos hlast hg.symm x
    rw [hl] at hlast'
    refine ⟨_, g', hfollows, ?_, List.mem_append_left _ h.noted, fun hodd k hk hmem => ?_, ?_⟩
    · rw [hlast', ← hl]
      split
      · exact hpos.ne'
      · exact h.lastSwap
    · rcases List.mem_append.1 hmem with hmem | hmem
      · exact h.new hodd k hk hmem
      · -- a note of this check is of a generation that is not before
        have heq := congrArg Prod.snd (List.mem_singleton.1 hmem)
        dsimp only at heq
        omega
    · rwa [hlast']

/-- It is kept over all checks in the interval. -/
theorem Keeps.run (hc : c.IsExact mem) {t t' : ℤ} {sum : Bytes} {g₀ : ℕ}
    (calls : List (ℤ × Bytes)) (hpos : ∀ call ∈ calls, 0 < call.1)
    (hcalls : ∀ call ∈ calls, t ≤ call.1 ∧ call.1 ≤ t') (hwindow : t' - t < f.interval)
    (h : f.Keeps mem t sum l g₀ g) :
    ∃ l' g', (run c f calls).Keeps mem t sum l' g₀ g' := by
  induction calls generalizing f l g with
  | nil => exact ⟨l, g, h⟩
  | cons call calls ih =>
    obtain ⟨hle, hle'⟩ := hcalls call List.mem_cons_self
    obtain ⟨-, l', g', hkeeps⟩ :=
      h.check hc (hpos call List.mem_cons_self) hle (by omega) call.2
    refine ih (fun call hcall => hpos call (List.mem_cons_of_mem _ hcall))
      (fun call hcall => hcalls call (List.mem_cons_of_mem _ hcall)) ?_ hkeeps
    rwa [check_interval]

/-- What is accepted is kept. -/
theorem keeps_of_accepted (hc : c.IsExact mem) (h : f.Follows mem l g) {t : ℤ} (hpos : 0 < t)
    {sum : Bytes} (hok : (f.check c t sum).1 = true) :
    ∃ l' g₀, (f.check c t sum).2.Keeps mem t sum l' g₀ g₀ := by
  obtain ⟨haccepted, hfollows, hlast, -⟩ := check_spec hc h hpos rfl rfl sum
  generalize (if t - (if f.lastSwap = 0 then t else f.lastSwap) ≥ f.interval then g + 1 else g) = g'
    at haccepted hfollows
  refine ⟨_, g', hfollows, ?_, List.mem_append_right _ (List.mem_singleton.2 rfl), ?_, .inl rfl⟩
  · rw [hlast]
    by_cases hzero : f.lastSwap = 0
    · rw [if_pos hzero, ite_self]
      exact hpos.ne'
    · rw [if_neg hzero]
      split
      · exact hpos.ne'
      · exact hzero
  · rintro hodd k rfl hmem
    rcases List.mem_append.1 hmem with hmem | hmem
    · exact haccepted.1 hok (.inr ⟨k, rfl, hmem, .inl hodd⟩)
    · have heq := congrArg Prod.snd (List.mem_singleton.1 hmem)
      dsimp only at heq
      omega

/-- What was accepted is rejected for an interval, whatever else is checked. -/
theorem check_window (hc : c.IsExact mem) (interval : ℤ) (before between : List (ℤ × Bytes))
    {t t' : ℤ} {sum : Bytes} (hpos : ∀ call ∈ before ++ (t, sum) :: between, 0 < call.1)
    (hmono : (before ++ (t, sum) :: between ++ [(t', sum)]).Pairwise fun a b => a.1 ≤ b.1)
    (hok : ((run c (new c interval) before).check c t sum).1 = true)
    (hwindow : t' - t < interval) :
    ((run c (new c interval) (before ++ (t, sum) :: between)).check c t' sum).1 = false := by
  have hpos' : ∀ call ∈ (t, sum) :: between, 0 < call.1 :=
    fun call hcall => hpos call (List.mem_append_right _ hcall)
  -- the clock is between the two readings
  have hlater : ∀ call ∈ between, t ≤ call.1 ∧ call.1 ≤ t' := by
    rw [List.pairwise_append] at hmono
    obtain ⟨hfirst, -, hlast⟩ := hmono
    rw [List.pairwise_append, List.pairwise_cons] at hfirst
    intro call hcall
    exact ⟨hfirst.2.1.1 call hcall, hlast call
      (List.mem_append_right _ (List.mem_cons_of_mem _ hcall)) _ (List.mem_singleton.2 rfl)⟩
  have hle : t ≤ t' := by
    rw [List.pairwise_append] at hmono
    exact hmono.2.2 (t, sum) (List.mem_append_right _ List.mem_cons_self) _
      (List.mem_singleton.2 rfl)
  obtain ⟨l, g, hfollows⟩ := exists_follows hc before
    (fun call hcall => hpos call (List.mem_append_left _ hcall))
    (show (new c interval).Follows mem [] 0 from (if_pos rfl).mpr ⟨rfl, rfl, rfl⟩)
  have htpos : 0 < t := hpos' _ List.mem_cons_self
  obtain ⟨l, g₀, hkeeps⟩ := keeps_of_accepted hc hfollows htpos hok
  have hinterval : (run c (new c interval) before).interval = interval := run_interval before
  obtain ⟨l, g, hkeeps⟩ := hkeeps.run hc between
    (fun call hcall => hpos' call (List.mem_cons_of_mem _ hcall)) hlater
    (by rwa [check_interval, hinterval])
  rw [run_append]
  refine (hkeeps.check hc (htpos.trans_le hle) hle ?_ sum).1
  rwa [run_interval, check_interval, hinterval]

end ReplayFilter

end Gzv2ray
