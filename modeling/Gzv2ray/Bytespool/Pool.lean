import Gzv2ray.Buf.Reader
import Gzv2ray.Lib.Transition

/-!
# Byte pools

The pools that byte slices and the arrays of buffers are recycled in. A pool holds values
of any type; a getter asserts that what it gets is a slice. Getting may give any of the
values held, or a new one, and the runtime may drop the values held at any time.

`Free` puts a pointer to the slice in a pool, not the slice.

* `bytespool`: the transition system;
* `Pools.Safe`: that getting from the pools is safe, whatever is got;
* `safe_iff`: it is in all runs but those in which a slice that is long enough is freed;
* `readChunk_spoils`: reading a long chunk frees one;
* `alloc_panics`: allocating after that.
-/

namespace Gzv2ray.Bytespool

def numPools : ℕ := 4
def sizeMulti : ℕ := 4

/-- The sizes, from 2048 on. -/
def sizeFrom : ℕ → ℕ
  | 0 => 2048
  | i + 1 => sizeFrom i * sizeMulti

def poolSize (i : Fin numPools) : ℕ := sizeFrom i

/-- A slice, of which only the length and the capacity matter. -/
structure Slice where
  len : ℕ
  cap : ℕ
  len_le : len ≤ cap
  deriving DecidableEq

def make (size : ℕ) : Slice := ⟨size, size, le_rfl⟩

/-- What a pool holds: a slice, or a pointer to one. -/
inductive Item
  | bytes (b : Slice)
  | pointer (b : Slice)
  deriving DecidableEq

/-- The assertion that a value is a slice. -/
def Item.assert : Item → Outcome Slice
  | bytes b => .ok b
  | pointer _ => .panic

/-- The pools, and the arrays of the buffers that are in use. -/
structure Pools where
  items : Fin numPools → List Item := fun _ => []
  buffers : List Slice := []

/-- The pool of the arrays of buffers. -/
def bufPool : Fin numPools := ⟨0, Nat.zero_lt_succ 3⟩

/-- The first pool whose slices are long enough. -/
def getPool (size : ℤ) : Option (Fin numPools) := (List.finRange numPools).find? fun i => size ≤ poolSize i

/-- The last pool whose slices are not longer. -/
def freePool (size : ℤ) : Option (Fin numPools) :=
  (List.finRange numPools).reverse.find? fun i => size ≥ poolSize i

namespace Pools

variable (s : Pools)

/-- Gets a value that the pool holds, or else a new one. -/
def get (i : Fin numPools) : Option Item → Item × Pools
  | none => (.bytes (make (poolSize i)), s)
  | some item => (item, { s with items := Function.update s.items i ((s.items i).erase item) })

def put (i : Fin numPools) (item : Item) : Pools :=
  { s with items := Function.update s.items i (item :: s.items i) }

def alloc (size : ℤ) (got : Option Item) : Outcome Slice × Pools :=
  match getPool size with
  | some i =>
    let (item, s) := s.get i got
    (item.assert, s)
  | none => (.ok (make size.toNat), s)

/-- What is put in the pool is `&b`. -/
def free (b : Slice) : Pools :=
  (freePool (int32 b.cap)).elim s fun i => s.put i (.pointer (make b.cap))

/-- The array of a new buffer. -/
def new (got : Option Item) : Outcome Slice × Pools :=
  let (item, s) := s.get bufPool got
  match item with
  | .bytes b => (.ok b, { s with buffers := b :: s.buffers })
  | .pointer _ => (.panic, s)

def release (b : Slice) : Pools :=
  { s with buffers := s.buffers.erase b }.put bufPool (.bytes b)

theorem mem_items_put (i : Fin numPools) (item : Item) : item ∈ (s.put i item).items i := by
  change item ∈ Function.update s.items i (item :: s.items i) i
  rw [Function.update_self]
  exact List.mem_cons_self

/-! ## Runs -/

/-- What happens to the pools. -/
inductive Event
  | alloc (size : ℤ) (got : Option Item)
  | free (b : Slice)
  | new (got : Option Item)
  | release (b : Slice)
  /-- The runtime drops a value. -/
  | drop (i : Fin numPools) (item : Item)

/-- A value that getting from a pool can give. -/
def Holds (i : Fin numPools) (got : Option Item) : Prop := ∀ item ∈ got, item ∈ s.items i

/-- When an event can happen. -/
def Enabled : Event → Prop
  | .alloc size got => ∀ i ∈ getPool size, s.Holds i got
  | .free _ => True
  | .new got => s.Holds bufPool got
  | .release b => b ∈ s.buffers
  | .drop i item => item ∈ s.items i

def step : Event → Pools
  | .alloc size got => (s.alloc size got).2
  | .free b => s.free b
  | .new got => (s.new got).2
  | .release b => s.release b
  | .drop i item => (s.get i (some item)).2

end Pools

/-- The pools from the start of the program. -/
def bytespool : Lts Pools Pools.Event where
  init s := s = {}
  step s e s' := s.Enabled e ∧ s' = s.step e

/-! ## Safety -/

/-- A value that a pool is to hold. -/
def Item.Fits (i : Fin numPools) (item : Item) : Prop := ∃ b, item = .bytes b ∧ poolSize i ≤ b.len

theorem fits_make (i : Fin numPools) : Item.Fits i (.bytes (make (poolSize i))) := ⟨_, rfl, le_rfl⟩

/-- A pool that is found for a size has slices of that size. -/
theorem le_of_getPool {size : ℤ} {i : Fin numPools} (h : getPool size = some i) : size ≤ poolSize i := by
  rw [getPool] at h
  have hle := List.find?_some h
  exact of_decide_eq_true hle

theorem bufSize_le (i : Fin numPools) : bufSize ≤ poolSize i := by
  revert i
  decide

/-- There is no pool for a slice that is too short for the first one. -/
theorem freePool_eq_none_iff (size : ℤ) : freePool size = none ↔ size < bufSize := by
  rw [freePool, List.find?_eq_none]
  refine ⟨fun h => ?_, fun h i _ hle => ?_⟩
  · have hfirst := h bufPool (List.mem_reverse.2 (List.mem_finRange _))
    exact not_le.1 fun hle => hfirst (decide_eq_true hle)
  · have hsize := bufSize_le i
    have hle := of_decide_eq_true hle
    omega

namespace Pools

/-- All that is held in the pools fits them. -/
structure Sound (s : Pools) : Prop where
  items : ∀ i, ∀ item ∈ s.items i, item.Fits i
  buffers : ∀ b ∈ s.buffers, bufSize ≤ b.len

/-- All that is held in the pools or taken from them fits them, so that no assertion fails, and
    what is returned is as long as requested. -/
structure Safe (s : Pools) : Prop where
  sound : s.Sound
  get : ∀ i got, s.Holds i got → (s.get i got).1.Fits i
  alloc : ∀ size got, s.Enabled (.alloc size got) → ∃ b, (s.alloc size got).1 = .ok b ∧ size ≤ b.len
  new : ∀ got, s.Enabled (.new got) → ∃ b, (s.new got).1 = .ok b ∧ bufSize ≤ b.len

variable {s : Pools}

theorem Sound.get (h : s.Sound) {i : Fin numPools} {got : Option Item} (hgot : s.Holds i got) :
    (s.get i got).1.Fits i := by
  cases got with
  | none => exact fits_make i
  | some item => exact h.items i item (hgot item rfl)

theorem Sound.safe (h : s.Sound) : s.Safe where
  sound := h
  get _ _ hgot := h.get hgot
  alloc size got hen := by
    rw [Pools.alloc]
    cases hpool : getPool size with
    | some i =>
      obtain ⟨b, hb, hlen⟩ := h.get (hen i hpool)
      have hsize := le_of_getPool hpool
      refine ⟨b, ?_, by omega⟩
      dsimp only
      rw [hb]
      rfl
    | none => exact ⟨_, rfl, Int.self_le_toNat size⟩
  new got hen := by
    obtain ⟨b, hb, hlen⟩ := h.get hen
    rw [Pools.new]
    refine ⟨b, ?_, hlen⟩
    dsimp only
    rw [hb]

/-! ### Steps -/

theorem Sound.put (h : s.Sound) {i : Fin numPools} {item : Item} (hitem : item.Fits i) :
    (s.put i item).Sound := by
  refine ⟨fun j item' hitem' => ?_, h.buffers⟩
  replace hitem' : item' ∈ Function.update s.items i (item :: s.items i) j := hitem'
  by_cases hij : j = i
  · subst hij
    rw [Function.update_self, List.mem_cons] at hitem'
    rcases hitem' with rfl | hitem'
    · exact hitem
    · exact h.items j item' hitem'
  · rw [Function.update_of_ne hij] at hitem'
    exact h.items j item' hitem'

/-- What is left in a pool still fits it. -/
theorem Sound.get_snd (h : s.Sound) (i : Fin numPools) (got : Option Item) : (s.get i got).2.Sound := by
  cases got with
  | none => exact h
  | some item =>
    refine ⟨fun j item' hitem' => ?_, h.buffers⟩
    replace hitem' : item' ∈ Function.update s.items i ((s.items i).erase item) j := hitem'
    by_cases hij : j = i
    · subst hij
      rw [Function.update_self] at hitem'
      exact h.items j item' (List.mem_of_mem_erase hitem')
    · rw [Function.update_of_ne hij] at hitem'
      exact h.items j item' hitem'

/-- Nothing that is too long for it to be dropped is freed. -/
def Careful : Event → Prop
  | .free b => int32 b.cap < bufSize
  | _ => True

theorem Sound.step (h : s.Sound) {e : Event} (he : s.Enabled e) (hcareful : Careful e) :
    (s.step e).Sound := by
  cases e with
  | alloc size got =>
    rw [Pools.step, Pools.alloc]
    cases getPool size with
    | some i => exact h.get_snd i got
    | none => exact h
  | free b =>
    rw [Pools.step, Pools.free, (freePool_eq_none_iff _).2 hcareful]
    exact h
  | new got =>
    obtain ⟨b, hb, hlen⟩ := h.get he
    have hrest := h.get_snd bufPool got
    rw [Pools.step, Pools.new]
    dsimp only
    rw [hb]
    refine ⟨hrest.items, fun b' hb' => ?_⟩
    rcases List.mem_cons.1 hb' with rfl | hb'
    · exact hlen
    · exact hrest.buffers b' hb'
  | release b =>
    have hrest : (Pools.mk s.items (s.buffers.erase b)).Sound :=
      ⟨h.items, fun b' hb' => h.buffers b' (List.mem_of_mem_erase hb')⟩
    exact hrest.put ⟨b, rfl, h.buffers b he⟩
  | drop i item => exact h.get_snd i (some item)

/-- A slice that is freed to a pool spoils it. -/
theorem not_safe_free (b : Slice) (hb : ¬ Careful (.free b)) : ¬ (s.free b).Safe := by
  intro hsafe
  obtain ⟨i, hi⟩ := Option.ne_none_iff_exists'.1 (mt (freePool_eq_none_iff _).1 hb)
  have hmem : Item.pointer (make b.cap) ∈ (s.free b).items i := by
    rw [Pools.free, hi]
    exact mem_items_put s i _
  obtain ⟨b', hb', -⟩ := hsafe.sound.items i _ hmem
  cases hb'

end Pools

/-- Getting from the pools is safe in every state that is reached without freeing a slice to a
    pool, and freeing one leads to a state in which it is not. -/
theorem safe_iff (s : Pools) :
    ((bytespool.restrict fun _ e => Pools.Careful e).Reach (fun _ => True) s → s.Safe) ∧
    ∀ b, ¬ Pools.Careful (.free b) → ¬ (s.step (.free b)).Safe := by
  refine ⟨fun h => Pools.Sound.safe ?_, fun b hb => Pools.not_safe_free b hb⟩
  refine h.invariant (fun s hs _ => ?_) fun s e s' _ hs hstep _ => ?_
  · rw [show s = _ from hs]
    exact ⟨fun i item hitem => absurd hitem List.not_mem_nil, fun b hb => absurd hb List.not_mem_nil⟩
  · rw [hstep.2.2]
    exact hs.step hstep.2.1 hstep.1

/-! ### Long chunks -/

/-- The slice is freed, if there is one. -/
def freed (s : Pools) : Outcome Slice → Pools
  | .ok payload => s.free payload
  | _ => s

/-- What reading a chunk does to the pools: nothing but for one that is too long for a buffer,
    which is read into a slice that is freed in the end. -/
def readChunk (s : Pools) (size : UInt16) (got : Option Item) : Pools :=
  if size.toNat ≤ bufSize then s else freed (s.alloc size.toNat got).2 (s.alloc size.toNat got).1

/-- Reading a chunk that is too long for a buffer spoils the pools. -/
theorem readChunk_spoils {s s' : Pools} {size : UInt16} (hsize : bufSize < size.toNat) {got : Option Item}
    {payload : Slice} (hpayload : s.alloc size.toNat got = (.ok payload, s'))
    (hlen : size.toNat ≤ payload.len) (hcap : payload.cap < 2 ^ 31) :
    ¬ (readChunk s size got).Safe := by
  rw [readChunk, if_neg (not_le.2 hsize), hpayload]
  refine Pools.not_safe_free payload fun hcareful => ?_
  have hlt : int32 payload.cap < bufSize := hcareful
  have hle := payload.len_le
  rw [int32_of_lt hcap] at hlt
  omega

/-! ### A run -/

/-- The pool of slices of 8192 bytes. -/
def examplePool : Fin numPools := ⟨1, Nat.le_of_ble_eq_true rfl⟩

/-- After a chunk of 4096 bytes. -/
def exampleSpoiled : Pools := readChunk {} 4096 none

theorem exampleSpoiled_eq : exampleSpoiled = Pools.put {} examplePool (.pointer (make 8192)) := by
  have hsize : int32 8192 = 8192 := int32_of_lt (by decide)
  change ((freePool (int32 8192)).elim _ _) = _
  rw [hsize]
  rfl

theorem alloc_panics :
    bytespool.Reach (fun _ => True) exampleSpoiled ∧
    exampleSpoiled.Enabled (.alloc 4096 (some (.pointer (make 8192)))) ∧
    (exampleSpoiled.alloc 4096 (some (.pointer (make 8192)))).1 = .panic := by
  have hinit : bytespool.Reach (fun _ => True) {} := .init rfl trivial
  refine ⟨?_, ?_, rfl⟩
  · have henabled : ({} : Pools).Enabled (.alloc 4096 none) :=
      fun i _ item h => absurd h (Option.not_mem_none item)
    have halloc := hinit.step (a := .alloc 4096 none) (t := {}) ⟨henabled, rfl⟩ trivial
    exact halloc.step (a := .free (make 8192)) ⟨trivial, rfl⟩ trivial
  · intro i hi item hitem
    cases hitem
    rw [exampleSpoiled_eq]
    cases (rfl : getPool 4096 = some examplePool).symm.trans hi
    exact Pools.mem_items_put _ _ _

end Gzv2ray.Bytespool
