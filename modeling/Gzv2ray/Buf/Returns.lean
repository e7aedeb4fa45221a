import Gzv2ray.Buf.Nested

/-!
# What the calls of a reader return

Calls of a reader return buffers (`Passes`), and then an error (`Returns`).

* `Passes.map`, `Passes.of_map`: readers that behave as others return what these do;
* `BufferedReader.returns`: a connection returns its bytes, and then its error.
-/

namespace Gzv2ray

variable {ρ σ : Type}

/-- Calls return the buffers, and leave another reader. -/
inductive Passes (below : MultiReader ρ) : ρ → MultiBuffer → ρ → Prop
  | nil (r : ρ) : Passes below r [] r
  | cons {r r' r'' : ρ} {mb mb' : MultiBuffer} :
    below r = (.ok mb, r') → Passes below r' mb' r'' → Passes below r (mb ++ mb') r''

/-- Calls return the buffers, and then the error. -/
def Returns (below : MultiReader ρ) (r : ρ) (mb : MultiBuffer) (e : Error) : Prop :=
  ∃ r' r'', Passes below r mb r' ∧ below r' = (.error e, r'')

variable {below : MultiReader ρ} {below' : MultiReader σ} {r r' r'' : ρ} {mb mb' : MultiBuffer}
  {e : Error}

namespace Passes

theorem single (h : below r = (.ok mb, r')) : Passes below r mb r' :=
  List.append_nil mb ▸ .cons h (.nil r')

theorem trans (h : Passes below r mb r') (h' : Passes below r' mb' r'') :
    Passes below r (mb ++ mb') r'' := by
  induction h with
  | nil => exact h'
  | cons hread _ ih =>
    rw [List.append_assoc]
    exact .cons hread (ih h')

/-- A reader that behaves as another one returns what that one does, -/
theorem map {f : ρ → σ} (hf : ∀ r, below' (f r) = ((below r).1, f (below r).2))
    (h : Passes below r mb r') : Passes below' (f r) mb (f r') := by
  induction h with
  | nil r => exact .nil (f r)
  | @cons r r' _ _ _ hread _ ih => exact .cons (by rw [hf, hread]) ih

/-- and the other way round. -/
theorem of_map {f : ρ → σ} (hf : ∀ r, below' (f r) = ((below r).1, f (below r).2)) {s' : σ}
    (h : Passes below' (f r) mb s') : ∃ r', s' = f r' ∧ Passes below r mb r' := by
  generalize hs : f r = s at h
  induction h generalizing r with
  | nil => exact ⟨r, hs.symm, .nil r⟩
  | cons hread _ ih =>
    rw [← hs, hf] at hread
    obtain ⟨hout, hnext⟩ := Prod.mk.inj hread
    obtain ⟨r', hs', h⟩ := ih hnext
    exact ⟨r', hs', .cons (Prod.ext hout rfl) h⟩

/-- Buffers that are returned are followed by others, up to the error. -/
theorem returns (h : Passes below r mb r') (h' : Returns below r' mb' e) :
    Returns below r (mb ++ mb') e := by
  obtain ⟨r₁, r₂, hpasses, herror⟩ := h'
  exact ⟨r₁, r₂, h.trans hpasses, herror⟩

end Passes

theorem Returns.error (h : below r = (.error e, r')) : Returns below r [] e := ⟨r, r', .nil r, h⟩

theorem Returns.map {f : ρ → σ} (hf : ∀ r, below' (f r) = ((below r).1, f (below r).2))
    (h : Returns below r mb e) : Returns below' (f r) mb e := by
  obtain ⟨r₁, r₂, hpasses, herror⟩ := h
  exact ⟨f r₁, f r₂, hpasses.map hf, by rw [hf, herror]⟩

theorem Returns.of_map {f : ρ → σ} (hf : ∀ r, below' (f r) = ((below r).1, f (below r).2))
    (h : Returns below' (f r) mb e) : Returns below r mb e := by
  obtain ⟨s₁, s₂, hpasses, herror⟩ := h
  obtain ⟨r₁, rfl, hpasses'⟩ := hpasses.of_map hf
  have hout : (below r₁).1 = .error e := by
    rw [hf] at herror
    exact congrArg Prod.fst herror
  exact ⟨r₁, _, hpasses', Prod.ext hout rfl⟩

/-- A connection returns its bytes, and then its error. -/
theorem BufferedReader.returns (r : BufferedReader) :
    ∃ mb, Returns readBuffers r mb r.reader.err ∧ MultiBuffer.bytes mb = r.bytes := by
  have hsegments : ∀ buffer segments err, MultiBuffer.isEmpty buffer = true →
      Returns readBuffers ⟨buffer, ⟨segments, err⟩⟩ segments.flatten err := by
    intro buffer segments err hempty
    induction segments with
    | nil =>
      have hread : readBuffers ⟨buffer, ⟨[], err⟩⟩ = (.error err, ⟨buffer, ⟨[], err⟩⟩) := by
        simp [readBuffers, readMultiBuffer, Source.readMultiBuffer, hempty]
      exact .error hread
    | cons mb segments ih =>
      have hread : readBuffers ⟨buffer, ⟨mb :: segments, err⟩⟩ = (.ok mb, ⟨buffer, ⟨segments, err⟩⟩) := by
        simp [readBuffers, readMultiBuffer, Source.readMultiBuffer, hempty]
      exact (Passes.single hread).returns ih
  have hbytes : ∀ segments : List MultiBuffer,
      MultiBuffer.bytes segments.flatten = segments.flatMap MultiBuffer.bytes := by
    intro segments
    induction segments with
    | nil => rfl
    | cons mb segments ih => rw [List.flatten_cons, MultiBuffer.bytes_append, ih, List.flatMap_cons]
  obtain ⟨buffer, segments, err⟩ := r
  rcases hempty : MultiBuffer.isEmpty buffer with - | -
  · have hread : readBuffers ⟨buffer, ⟨segments, err⟩⟩ = (.ok buffer, ⟨[], ⟨segments, err⟩⟩) := by
      simp [readBuffers, readMultiBuffer, hempty]
    refine ⟨_, (Passes.single hread).returns (hsegments [] segments err rfl), ?_⟩
    rw [MultiBuffer.bytes_append, hbytes]
    rfl
  · refine ⟨_, hsegments buffer segments err hempty, ?_⟩
    rw [hbytes, bytes, (MultiBuffer.isEmpty_iff buffer).1 hempty, List.nil_append]
    rfl

end Gzv2ray
