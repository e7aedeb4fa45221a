import Mathlib.Tactic

/-!
# A cache of pairs

The cache holds pairs of a key and a value, found from either side. Its elements
are in a list, that used last in front; when there are too many the one behind is
removed, with its entries in both maps.

* `Lru.Indexed`: the list and the two maps hold the same pairs;
* `Lru.indexed_pushFront`, `Lru.indexed_removeBack`: how the steps of `put` keep it;
* `Lru.caches_put`: a new pair is held after `put`, and any other one is either
  kept or removed with its key.

An existing key gets its new value in `put`, but the map from values does not.
-/

namespace Gzv2ray.Cache

/-- The elements are numbers, in the order in which they were made. -/
structure Lru (K V : Type) where
  capacity : ℤ
  doubleLinkedlist : List ℕ := []
  element : ℕ → Option (K × V) := fun _ => none
  keyToElement : K → Option ℕ := fun _ => none
  valueToElement : V → Option ℕ := fun _ => none
  allocated : ℕ := 0

namespace Lru

variable {K V : Type} (l : Lru K V)

/-- Moves an element of the list before the others. -/
def moveToFront (e : ℕ) : Lru K V :=
  { l with
    doubleLinkedlist := if l.doubleLinkedlist.contains e then e :: l.doubleLinkedlist.erase e
      else l.doubleLinkedlist }

/-- The pair of a key or of a value, by the map from either of them. -/
def load {X : Type} (map : X → Option ℕ) (x : X) : Option (K × V) × Lru K V :=
  match map x with
  | some e => (l.element e, l.moveToFront e)
  | none => (none, l)

def get (key : K) : Option V × Lru K V :=
  ((l.load l.keyToElement key).1.map Prod.snd, (l.load l.keyToElement key).2)

def getKeyFromValue (value : V) : Option K × Lru K V :=
  ((l.load l.valueToElement value).1.map Prod.fst, (l.load l.valueToElement value).2)

variable [DecidableEq K] [DecidableEq V]

/-- Makes an element, and stores it in both maps. -/
def pushFront (key : K) (value : V) : Lru K V :=
  { l with
    doubleLinkedlist := l.allocated :: l.doubleLinkedlist
    element := Function.update l.element l.allocated (some (key, value))
    keyToElement := Function.update l.keyToElement key (some l.allocated)
    valueToElement := Function.update l.valueToElement value (some l.allocated)
    allocated := l.allocated + 1 }

/-- Removes the last element, and deletes its key and its value. -/
def removeBack : Lru K V :=
  match l.doubleLinkedlist.getLast?.bind l.element with
  | none => l
  | some (key, value) => { l with
      doubleLinkedlist := l.doubleLinkedlist.dropLast
      keyToElement := Function.update l.keyToElement key none
      valueToElement := Function.update l.valueToElement value none }

def put (key : K) (value : V) : Lru K V :=
  match l.keyToElement key with
  | some e =>
    moveToFront { l with element := Function.update l.element e (some (key, value)) } e
  | none =>
    if l.capacity < (l.pushFront key value).doubleLinkedlist.length then
      (l.pushFront key value).removeBack
    else l.pushFront key value

/-! ## What the cache holds -/

omit [DecidableEq K] [DecidableEq V]

/-- The pair is held. -/
def Caches (key : K) (value : V) : Prop :=
  ∃ e, l.keyToElement key = some e ∧ l.element e = some (key, value)

/-- The list and the two maps hold the same pairs. -/
structure Indexed : Prop where
  nodup : l.doubleLinkedlist.Nodup
  fresh : ∀ e ∈ l.doubleLinkedlist, e < l.allocated
  stored : ∀ e ∈ l.doubleLinkedlist, ∃ key value, l.element e = some (key, value) ∧
    l.keyToElement key = some e ∧ l.valueToElement value = some e
  key_mem : ∀ key e, l.keyToElement key = some e →
    e ∈ l.doubleLinkedlist ∧ ∃ value, l.element e = some (key, value)
  value_mem : ∀ value e, l.valueToElement value = some e →
    e ∈ l.doubleLinkedlist ∧ ∃ key, l.element e = some (key, value)

variable {l}

theorem indexed_empty (capacity : ℤ) : ({ capacity } : Lru K V).Indexed where
  nodup := List.nodup_nil
  fresh e h := absurd h (List.not_mem_nil (a := e))
  stored e h := absurd h (List.not_mem_nil (a := e))
  key_mem _ e h := absurd h (Option.some_ne_none e).symm
  value_mem _ e h := absurd h (Option.some_ne_none e).symm

namespace Indexed

variable (h : l.Indexed)
include h

/-- The map from values finds the pairs that are held. -/
theorem caches_iff (key : K) (value : V) :
    l.Caches key value ↔ ∃ e, l.valueToElement value = some e ∧ l.element e = some (key, value) := by
  constructor
  · rintro ⟨e, hkey, he⟩
    obtain ⟨k, v, he', _, hv⟩ := h.stored e (h.key_mem _ _ hkey).1
    rw [he, Option.some.injEq, Prod.mk.injEq] at he'
    exact ⟨e, he'.2 ▸ hv, he⟩
  · rintro ⟨e, hvalue, he⟩
    obtain ⟨k, v, he', hk, _⟩ := h.stored e (h.value_mem _ _ hvalue).1
    rw [he, Option.some.injEq, Prod.mk.injEq] at he'
    exact ⟨e, he'.1 ▸ hk, he⟩

/-- A value has one key. -/
theorem key_eq {key key' : K} {value : V} (hc : l.Caches key value)
    (hc' : l.Caches key' value) : key = key' := by
  obtain ⟨e, hvalue, he⟩ := (h.caches_iff _ _).1 hc
  obtain ⟨e', hvalue', he'⟩ := (h.caches_iff _ _).1 hc'
  rw [hvalue, Option.some.injEq] at hvalue'
  rw [← hvalue', he, Option.some.injEq, Prod.mk.injEq] at he'
  exact he'.1

/-! ## Reading -/

theorem get_eq_some (key : K) (value : V) : (l.get key).1 = some value ↔ l.Caches key value := by
  rw [get, load]
  constructor
  · intro hget
    cases hkey : l.keyToElement key with
    | none => rw [hkey] at hget; cases hget
    | some e =>
      obtain ⟨v, he⟩ := (h.key_mem _ _ hkey).2
      simp only [hkey, he, Option.map_some, Option.some.injEq] at hget
      exact ⟨e, hkey, hget ▸ he⟩
  · rintro ⟨e, hkey, he⟩
    simp only [hkey, he, Option.map_some]

theorem getKeyFromValue_eq_some (key : K) (value : V) :
    (l.getKeyFromValue value).1 = some key ↔ l.Caches key value := by
  rw [h.caches_iff, getKeyFromValue, load]
  constructor
  · intro hget
    cases hvalue : l.valueToElement value with
    | none => rw [hvalue] at hget; cases hget
    | some e =>
      obtain ⟨k, he⟩ := (h.value_mem _ _ hvalue).2
      simp only [hvalue, he, Option.map_some, Option.some.injEq] at hget
      exact ⟨e, rfl, hget ▸ he⟩
  · rintro ⟨e, hvalue, he⟩
    rw [hvalue]
    exact congrArg (Option.map Prod.fst) he

end Indexed

/-- Only the order of the list may differ. -/
structure Reordered (l l' : Lru K V) : Prop where
  capacity : l'.capacity = l.capacity
  perm : l'.doubleLinkedlist.Perm l.doubleLinkedlist
  element : l'.element = l.element
  keyToElement : l'.keyToElement = l.keyToElement
  valueToElement : l'.valueToElement = l.valueToElement
  allocated : l'.allocated = l.allocated

theorem reordered_moveToFront (e : ℕ) : Reordered l (l.moveToFront e) := by
  refine ⟨rfl, ?_, rfl, rfl, rfl, rfl⟩
  rw [moveToFront]
  split
  next hmem => exact (List.perm_cons_erase (List.contains_iff_mem.1 hmem)).symm
  · exact List.Perm.refl _

theorem Reordered.refl : Reordered l l := ⟨rfl, List.Perm.refl _, rfl, rfl, rfl, rfl⟩

theorem reordered_load {X : Type} (map : X → Option ℕ) (x : X) : Reordered l (l.load map x).2 := by
  rw [load]
  split
  · exact reordered_moveToFront _
  · exact .refl

theorem reordered_get (key : K) : Reordered l (l.get key).2 := reordered_load _ _

theorem reordered_getKeyFromValue (value : V) : Reordered l (l.getKeyFromValue value).2 :=
  reordered_load _ _

namespace Reordered

variable {l' l'' : Lru K V} (hr : Reordered l l')
include hr

theorem trans (hr' : Reordered l' l'') : Reordered l l'' :=
  ⟨hr'.capacity.trans hr.capacity, hr'.perm.trans hr.perm, hr'.element.trans hr.element,
    hr'.keyToElement.trans hr.keyToElement, hr'.valueToElement.trans hr.valueToElement,
    hr'.allocated.trans hr.allocated⟩

theorem caches_iff (key : K) (value : V) : l'.Caches key value ↔ l.Caches key value := by
  rw [Caches, Caches, hr.keyToElement, hr.element]

theorem indexed (h : l.Indexed) : l'.Indexed where
  nodup := hr.perm.nodup_iff.2 h.nodup
  fresh e he := hr.allocated ▸ h.fresh e (hr.perm.mem_iff.1 he)
  stored e he := by
    rw [hr.element, hr.keyToElement, hr.valueToElement]
    exact h.stored e (hr.perm.mem_iff.1 he)
  key_mem key e he := by
    rw [hr.keyToElement] at he
    rw [hr.perm.mem_iff, hr.element]
    exact h.key_mem key e he
  value_mem value e he := by
    rw [hr.valueToElement] at he
    rw [hr.perm.mem_iff, hr.element]
    exact h.value_mem value e he

end Reordered

/-! ## Writing -/

section

variable [DecidableEq K] [DecidableEq V] {key : K} {value : V}

/-- The key and the value of the pair are new to the cache. -/
structure IsNew (l : Lru K V) (key : K) (value : V) : Prop where
  key : l.keyToElement key = none
  value : l.valueToElement value = none

theorem caches_pushFront (h : l.Indexed) (hnew : l.IsNew key value) (key' : K) (value' : V) :
    (l.pushFront key value).Caches key' value' ↔
      (key' = key ∧ value' = value) ∨ l.Caches key' value' := by
  by_cases hkey : key' = key
  · subst hkey
    have hold : ¬ l.Caches key' value' := by
      rintro ⟨e, he, _⟩
      rw [hnew.key] at he
      cases he
    constructor
    · rintro ⟨e, he, helement⟩
      simp only [pushFront, Function.update_self, Option.some.injEq] at he
      rw [← he] at helement
      simp only [pushFront, Function.update_self, Option.some.injEq, Prod.mk.injEq] at helement
      exact .inl ⟨rfl, helement.2.symm⟩
    · rintro (⟨_, rfl⟩ | hc)
      · exact ⟨l.allocated, Function.update_self .., Function.update_self ..⟩
      · exact absurd hc hold
  · simp only [Caches, pushFront, Function.update_of_ne hkey, hkey, false_and, false_or]
    refine exists_congr fun e => and_congr_right fun he => ?_
    rw [Function.update_of_ne (h.fresh e (h.key_mem _ _ he).1).ne]

theorem indexed_pushFront (h : l.Indexed) (hnew : l.IsNew key value) :
    (l.pushFront key value).Indexed where
  nodup := List.nodup_cons.2 ⟨fun hmem => (h.fresh _ hmem).ne rfl, h.nodup⟩
  fresh e he := by
    rcases List.mem_cons.1 he with rfl | he
    · exact Nat.lt_succ_self _
    · exact Nat.lt_succ_of_lt (h.fresh e he)
  stored e he := by
    rcases List.mem_cons.1 he with rfl | he
    · exact ⟨key, value, Function.update_self .., Function.update_self .., Function.update_self ..⟩
    · obtain ⟨k, v, he', hk, hv⟩ := h.stored e he
      have hkey : k ≠ key := fun heq => by rw [heq, hnew.key] at hk; cases hk
      have hvalue : v ≠ value := fun heq => by rw [heq, hnew.value] at hv; cases hv
      refine ⟨k, v, ?_, ?_, ?_⟩
      · exact (Function.update_of_ne (h.fresh e he).ne ..).trans he'
      · exact (Function.update_of_ne hkey ..).trans hk
      · exact (Function.update_of_ne hvalue ..).trans hv
  key_mem k e he := by
    simp only [pushFront, Function.update_apply] at he ⊢
    by_cases hk : k = key
    · rw [if_pos hk, Option.some.injEq] at he
      rw [← he, if_pos rfl, hk]
      exact ⟨List.mem_cons_self, value, rfl⟩
    · rw [if_neg hk] at he
      obtain ⟨hmem, hv⟩ := h.key_mem k e he
      rw [if_neg (h.fresh e hmem).ne]
      exact ⟨List.mem_cons_of_mem _ hmem, hv⟩
  value_mem v e he := by
    simp only [pushFront, Function.update_apply] at he ⊢
    by_cases hv : v = value
    · rw [if_pos hv, Option.some.injEq] at he
      rw [← he, if_pos rfl, hv]
      exact ⟨List.mem_cons_self, key, rfl⟩
    · rw [if_neg hv] at he
      obtain ⟨hmem, hk⟩ := h.value_mem v e he
      rw [if_neg (h.fresh e hmem).ne]
      exact ⟨List.mem_cons_of_mem _ hmem, hk⟩

/-- The element behind is removed with its pair. -/
theorem removeBack_eq (h : l.Indexed) (hne : l.doubleLinkedlist ≠ []) :
    ∃ key value, l.element (l.doubleLinkedlist.getLast hne) = some (key, value) ∧
      l.keyToElement key = some (l.doubleLinkedlist.getLast hne) ∧
      l.valueToElement value = some (l.doubleLinkedlist.getLast hne) ∧
      l.removeBack = { l with
        doubleLinkedlist := l.doubleLinkedlist.dropLast
        keyToElement := Function.update l.keyToElement key none
        valueToElement := Function.update l.valueToElement value none } := by
  obtain ⟨key, value, he, hk, hv⟩ := h.stored _ (List.getLast_mem hne)
  refine ⟨key, value, he, hk, hv, ?_⟩
  rw [removeBack, List.getLast?_eq_some_getLast hne, Option.bind_some, he]

theorem length_removeBack (h : l.Indexed) (hne : l.doubleLinkedlist ≠ []) :
    l.removeBack.doubleLinkedlist.length + 1 = l.doubleLinkedlist.length := by
  obtain ⟨key, value, -, -, -, heq⟩ := removeBack_eq h hne
  rw [heq, List.length_dropLast]
  exact Nat.sub_add_cancel (List.length_pos_of_ne_nil hne)

omit [DecidableEq K] [DecidableEq V] in
theorem mem_dropLast_iff (h : l.doubleLinkedlist.Nodup) (hne : l.doubleLinkedlist ≠ []) (e : ℕ) :
    e ∈ l.doubleLinkedlist.dropLast ↔
      e ∈ l.doubleLinkedlist ∧ e ≠ l.doubleLinkedlist.getLast hne := by
  have hsplit := List.dropLast_append_getLast hne
  rw [← hsplit, List.nodup_append] at h
  constructor
  · intro he
    exact ⟨List.mem_of_mem_dropLast he, h.2.2 e he _ List.mem_cons_self⟩
  · rintro ⟨he, hlast⟩
    rw [← hsplit, List.mem_append, List.mem_singleton] at he
    exact he.resolve_right hlast

/-- No other element has the key or the value of the one behind. -/
theorem indexed_removeBack (h : l.Indexed) (hne : l.doubleLinkedlist ≠ []) :
    l.removeBack.Indexed := by
  obtain ⟨key, value, hlast, hkey, hvalue, heq⟩ := removeBack_eq h hne
  have hmem := mem_dropLast_iff h.nodup hne
  rw [heq]
  constructor
  · exact h.nodup.sublist (List.dropLast_sublist _)
  · exact fun e he => h.fresh e (List.mem_of_mem_dropLast he)
  · intro e he
    obtain ⟨k, v, he', hk, hv⟩ := h.stored e ((hmem e).1 he).1
    have hk' : k ≠ key := by
      rintro rfl
      exact ((hmem e).1 he).2 (Option.some.inj (hk.symm.trans hkey))
    have hv' : v ≠ value := by
      rintro rfl
      exact ((hmem e).1 he).2 (Option.some.inj (hv.symm.trans hvalue))
    exact ⟨k, v, he', (Function.update_of_ne hk' ..).trans hk,
      (Function.update_of_ne hv' ..).trans hv⟩
  · intro k e he
    simp only [Function.update_apply] at he
    split at he
    · cases he
    next hk =>
      obtain ⟨he', v, hv⟩ := h.key_mem k e he
      refine ⟨(hmem e).2 ⟨he', ?_⟩, v, hv⟩
      rintro rfl
      rw [hlast, Option.some.injEq, Prod.mk.injEq] at hv
      exact hk hv.1.symm
  · intro v e he
    simp only [Function.update_apply] at he
    split at he
    · cases he
    next hv =>
      obtain ⟨he', k, hk⟩ := h.value_mem v e he
      refine ⟨(hmem e).2 ⟨he', ?_⟩, k, hk⟩
      rintro rfl
      rw [hlast, Option.some.injEq, Prod.mk.injEq] at hk
      exact hv hk.2.symm

/-- One key is removed, and no other. -/
theorem caches_removeBack (h : l.Indexed) (hne : l.doubleLinkedlist ≠ []) :
    ∃ key, l.keyToElement key = some (l.doubleLinkedlist.getLast hne) ∧
      ∀ key' value', l.removeBack.Caches key' value' ↔ key' ≠ key ∧ l.Caches key' value' := by
  obtain ⟨key, value, -, hkey, -, heq⟩ := removeBack_eq h hne
  refine ⟨key, hkey, fun key' value' => ?_⟩
  rw [heq]
  simp only [Caches, Function.update_apply]
  split
  next hk => simp only [hk, ne_eq, not_true_eq_false, false_and, reduceCtorEq, exists_false]
  next hk => simp only [ne_eq, hk, not_false_eq_true, true_and]

/-- A cache whose list and maps agree, and that is not too full. -/
structure WellFormed (l : Lru K V) : Prop where
  indexed : l.Indexed
  length_le : (l.doubleLinkedlist.length : ℤ) ≤ l.capacity

theorem capacity_put (l : Lru K V) (key : K) (value : V) :
    (l.put key value).capacity = l.capacity := by
  rw [put]
  split
  · rfl
  · split
    · rw [removeBack]
      split <;> rfl
    · rfl

/-- The element behind is not the one that was pushed. -/
theorem getLast_pushFront_ne (h : l.Indexed) (hne : l.doubleLinkedlist ≠ []) :
    (l.pushFront key value).doubleLinkedlist.getLast (List.cons_ne_nil _ _) ≠ l.allocated := by
  have hlast : (l.pushFront key value).doubleLinkedlist.getLast (List.cons_ne_nil _ _) =
      l.doubleLinkedlist.getLast hne := List.getLast_cons hne
  rw [hlast]
  exact (h.fresh _ (List.getLast_mem hne)).ne

/-- A new pair is pushed, and the element behind is removed if the cache was full. -/
theorem put_of_isNew (hnew : l.IsNew key value) :
    l.put key value = if l.capacity < (l.doubleLinkedlist.length + 1 : ℕ) then
      (l.pushFront key value).removeBack else l.pushFront key value := by
  rw [put, hnew.key]
  rfl

theorem wellFormed_put (h : l.WellFormed) (hnew : l.IsNew key value) :
    (l.put key value).WellFormed := by
  have hpush := indexed_pushFront h.indexed hnew
  have hlength := length_removeBack hpush (List.cons_ne_nil _ _)
  have hpushed : (l.pushFront key value).doubleLinkedlist.length =
    l.doubleLinkedlist.length + 1 := rfl
  have hle := h.length_le
  refine ⟨?_, ?_⟩
  · rw [put_of_isNew hnew]
    split
    · exact indexed_removeBack hpush (List.cons_ne_nil _ _)
    · exact hpush
  · rw [capacity_put, put_of_isNew hnew]
    split <;> omega

/-- A new pair is held after `put`, as is what was held before, but for one key at most. -/
theorem caches_put (h : l.WellFormed) (hnew : l.IsNew key value) (hcapacity : 1 ≤ l.capacity) :
    ∃ gone : Option K, ∀ key' value', (l.put key value).Caches key' value' ↔
      (key' = key ∧ value' = value) ∨ (gone ≠ some key' ∧ l.Caches key' value') := by
  have hpush := indexed_pushFront h.indexed hnew
  have hpushed := caches_pushFront h.indexed hnew
  rw [put_of_isNew hnew]
  split
  next hfull =>
    have hne : l.doubleLinkedlist ≠ [] := by
      intro hnil
      rw [hnil, List.length_nil] at hfull
      omega
    obtain ⟨gone, hkey, hiff⟩ := caches_removeBack hpush (List.cons_ne_nil _ _)
    -- The key of the element behind is an old one.
    have hgone : gone ≠ key := by
      rintro rfl
      have hnewKey : (l.pushFront gone value).keyToElement gone = some l.allocated :=
        Function.update_self ..
      exact getLast_pushFront_ne h.indexed hne (Option.some.inj (hkey.symm.trans hnewKey))
    refine ⟨some gone, fun key' value' => ?_⟩
    rw [hiff, hpushed, ne_eq, ne_eq, Option.some.injEq, eq_comm (a := gone)]
    constructor
    · rintro ⟨hk, hpair | hold⟩
      · exact .inl hpair
      · exact .inr ⟨hk, hold⟩
    · rintro (⟨rfl, rfl⟩ | ⟨hk, hold⟩)
      · exact ⟨hgone.symm, .inl ⟨rfl, rfl⟩⟩
      · exact ⟨hk, .inr hold⟩
  · refine ⟨none, fun key' value' => ?_⟩
    rw [hpushed]
    simp only [ne_eq, reduceCtorEq, not_false_eq_true, true_and]

end

/-! ## Counting -/

/-- The cache holds no more values than it has room for. -/
theorem WellFormed.card_le (h : l.WellFormed) [DecidableEq V] (values : Finset V)
    (hheld : ∀ value ∈ values, ∃ key, l.Caches key value) : (values.card : ℤ) ≤ l.capacity := by
  have hvalue : ∀ value ∈ values, ∃ e ∈ l.doubleLinkedlist, ∃ key,
      l.element e = some (key, value) := by
    intro value hv
    obtain ⟨key, e, hkey, he⟩ := hheld value hv
    exact ⟨e, (h.indexed.key_mem _ _ hkey).1, key, he⟩
  choose! element hmem key helement using hvalue
  have hinj : Set.InjOn element values := by
    intro v hv v' hv' heq
    have hpair := (helement v hv).symm.trans (heq ▸ helement v' hv')
    exact (Prod.mk.inj (Option.some.inj hpair)).2
  have hcard : values.card ≤ l.doubleLinkedlist.toFinset.card :=
    Finset.card_le_card_of_injOn element (fun v hv => List.mem_toFinset.2 (hmem v hv)) hinj
  have hlist := List.toFinset_card_le l.doubleLinkedlist
  have hle := h.length_le
  omega

end Lru

end Gzv2ray.Cache
