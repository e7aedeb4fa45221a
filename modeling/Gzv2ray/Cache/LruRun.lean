import Gzv2ray.Cache.Lru

/-!
# Runs of the cache of pairs

Operations that put new pairs, or pairs that are held, and look pairs up from either side.

* `Lru.entries`: the pairs that are held, that used last in front;
* `Lru.uses`: the keys of the pairs that the operations of a run use, in this order;
* `lru_faithful`: the cache holds the pairs of the keys used last, in the order of their last use,
  and the list and the two maps agree on them.

`put` does not store the new value of an existing key in the map from values, and takes a value
away from the key that had it.
-/

namespace Gzv2ray.Cache

inductive LruOperation (K V : Type)
  | put (key : K) (value : V)
  | get (key : K)
  | getKeyFromValue (value : V)

namespace Lru

section

variable {K V : Type} [DecidableEq K] [DecidableEq V] (l : Lru K V)

def step : LruOperation K V → Lru K V
  | .put key value => l.put key value
  | .get key => (l.get key).2
  | .getKeyFromValue value => (l.getKeyFromValue value).2

/-- The cache after some operations. -/
def run (ops : List (LruOperation K V)) : Lru K V := ops.foldl step l

/-- The key of the pair that an operation uses, if there is one. -/
def used : LruOperation K V → Option K
  | .put key _ => some key
  | .get key => (l.get key).1.map fun _ => key
  | .getKeyFromValue value => (l.getKeyFromValue value).1

/-- The keys of the pairs used, one after the other. -/
def uses : Lru K V → List (LruOperation K V) → List K
  | _, [] => []
  | l, op :: ops => (l.used op).toList ++ uses (l.step op) ops

/-- A pair is put that is new, or held. -/
def Permits : LruOperation K V → Prop
  | .put key value => l.IsNew key value ∨ l.Caches key value
  | _ => True

/-- Each operation of a run is permitted. -/
def IsPermitted : Lru K V → List (LruOperation K V) → Prop
  | _, [] => True
  | l, op :: ops => l.Permits op ∧ IsPermitted (l.step op) ops

end

variable {K V : Type}

/-- The pairs that are held, that used last in front. -/
def entries (l : Lru K V) : List (K × V) := l.doubleLinkedlist.filterMap l.element

def keys (l : Lru K V) : List K := l.entries.map Prod.fst

/-! ## Order -/

section

variable [DecidableEq K]

/-- A use moves a key behind the others, in the order of the last uses. -/
theorem dedup_concat (u : List K) (key : K) :
    (u ++ [key]).dedup = u.dedup.erase key ++ [key] := by
  induction u with
  | nil => rfl
  | cons a u ih =>
    rw [List.cons_append]
    by_cases hmem : a ∈ u
    · rw [List.dedup_cons_of_mem hmem, List.dedup_cons_of_mem (List.mem_append_left _ hmem), ih]
    · rw [List.dedup_cons_of_notMem hmem]
      by_cases hkey : a = key
      · subst hkey
        rw [List.dedup_cons_of_mem (List.mem_append_right _ List.mem_cons_self), ih,
          List.erase_cons_head, List.erase_of_not_mem fun h => hmem (List.mem_dedup.1 h)]
      · rw [List.dedup_cons_of_notMem (by simp [hmem, hkey]), ih,
          List.erase_cons_tail (by simpa using hkey), List.cons_append]

/-- The keys in the order of their last use, that used last in front. -/
def recent (u : List K) : List K := u.dedup.reverse

theorem recent_concat (u : List K) (key : K) :
    recent (u ++ [key]) = key :: (recent u).erase key := by
  rw [recent, recent, dedup_concat, List.reverse_append, List.reverse_singleton,
    List.singleton_append, (List.nodup_dedup u).erase_eq_filter,
    (List.nodup_reverse.2 (List.nodup_dedup u)).erase_eq_filter, List.filter_reverse]

/-- A key that is among the first ones is moved in front of them. -/
theorem take_of_mem {r : List K} {c : ℕ} {key : K} (h : key ∈ r.take c) :
    key :: (r.take c).erase key = (key :: r.erase key).take c := by
  rcases c with - | c
  · rw [List.take_zero] at h
    exact absurd h List.not_mem_nil
  have herase : r.erase key = (r.take (c + 1)).erase key ++ r.drop (c + 1) := by
    rw [← List.erase_append_left _ h, List.take_append_drop]
  have hlength := List.length_erase_of_mem h
  rw [List.length_take] at hlength
  rw [List.take_succ_cons, herase]
  congr 1
  by_cases hfull : c + 1 ≤ r.length
  · exact (List.take_left' (by omega)).symm
  · rw [List.drop_of_length_le (by omega), List.append_nil]
    exact (List.take_of_length_le (by omega)).symm

/-- A key that is not among the first ones is put in front, and the last of them goes if there were
    as many as there can be. -/
theorem take_of_notMem {r : List K} {c : ℕ} {key : K} (h : key ∉ r.take c) :
    (key :: r.take c).take c = (key :: r.erase key).take c := by
  rcases c with - | c
  · rw [List.take_zero, List.take_zero]
  rw [List.take_succ_cons, List.take_succ_cons, List.take_take, Nat.min_eq_left (Nat.le_succ c)]
  congr 1
  have herase : r.erase key = r.take (c + 1) ++ (r.drop (c + 1)).erase key := by
    rw [← List.erase_append_right _ h, List.take_append_drop]
  rw [herase, List.take_append, List.take_take, Nat.min_eq_left (Nat.le_succ c), List.length_take]
  by_cases hfull : c + 1 ≤ r.length
  · rw [show c - min (c + 1) r.length = 0 by omega, List.take_zero, List.append_nil]
  · rw [List.drop_of_length_le (by omega), List.erase_nil, List.take_nil, List.append_nil]

end

/-! ## Steps -/

section

variable {l : Lru K V} {key : K} {value : V} {e : ℕ}

theorem keys_eq (l : Lru K V) :
    l.keys = l.doubleLinkedlist.filterMap fun e => (l.element e).map Prod.fst := by
  rw [keys, entries, List.map_filterMap]

/-- A key that is found is that of a pair of the list. -/
theorem mem_keys_of_caches (h : l.Indexed) (hc : l.Caches key value) : key ∈ l.keys := by
  obtain ⟨e, hkey, he⟩ := hc
  rw [keys, List.mem_map]
  exact ⟨(key, value), List.mem_filterMap.2 ⟨e, (h.key_mem _ _ hkey).1, he⟩, rfl⟩

theorem keyToElement_of_mem_keys (h : l.Indexed) (hmem : key ∈ l.keys) :
    ∃ e ∈ l.doubleLinkedlist, l.keyToElement key = some e := by
  rw [keys, List.mem_map] at hmem
  obtain ⟨⟨k, v⟩, hentry, rfl⟩ := hmem
  obtain ⟨e, he, helement⟩ := List.mem_filterMap.1 hentry
  obtain ⟨k', v', helement', hkey, -⟩ := h.stored e he
  obtain ⟨rfl, rfl⟩ := Prod.mk.inj (Option.some.inj (helement.symm.trans helement'))
  exact ⟨e, he, hkey⟩

theorem keys_moveToFront [DecidableEq K] (h : l.Indexed) (hmem : e ∈ l.doubleLinkedlist)
    (he : l.element e = some (key, value)) :
    (l.moveToFront e).keys = key :: l.keys.erase key := by
  obtain ⟨a, b, hlist⟩ := List.append_of_mem hmem
  have ha : e ∉ a := by
    have hnodup := h.nodup
    rw [hlist] at hnodup
    exact fun hea => (List.nodup_append.1 hnodup).2.2 e hea e List.mem_cons_self rfl
  obtain ⟨k, v, he', hkey, -⟩ := h.stored e hmem
  obtain ⟨rfl, rfl⟩ := Prod.mk.inj (Option.some.inj (he.symm.trans he'))
  -- No element before has the key.
  have hnone : key ∉ a.filterMap fun e => (l.element e).map Prod.fst := by
    intro hin
    obtain ⟨e', hea, hk⟩ := List.mem_filterMap.1 hin
    obtain ⟨k', v', helement, hkey', -⟩ :=
      h.stored e' (hlist ▸ List.mem_append_left _ hea)
    rw [helement, Option.map_some, Option.some.injEq] at hk
    obtain rfl : k' = key := hk
    rw [hkey, Option.some.injEq] at hkey'
    exact ha (hkey' ▸ hea)
  have herase : l.doubleLinkedlist.erase e = a ++ b := by
    rw [hlist, List.erase_append_right _ ha, List.erase_cons_head]
  rw [keys_eq, keys_eq, moveToFront, if_pos (List.contains_iff_mem.2 hmem)]
  dsimp only
  rw [herase, hlist, List.filterMap_cons, List.filterMap_append, List.filterMap_append,
    List.filterMap_cons, he]
  dsimp only [Option.map_some]
  rw [List.erase_append_right _ hnone, List.erase_cons_head]

/-- What a load finds is moved to the front. -/
theorem load_of_some {X : Type} {map : X → Option ℕ} {x : X} (h : map x = some e) :
    l.load map x = (l.element e, l.moveToFront e) := by
  rw [load, h]

variable [DecidableEq K] [DecidableEq V]

/-- A new element is in front of the others, which stay as they are. -/
theorem entries_pushFront (h : l.Indexed) :
    (l.pushFront key value).entries = (key, value) :: l.entries := by
  have hold : ∀ e ∈ l.doubleLinkedlist,
      Function.update l.element l.allocated (some (key, value)) e = l.element e :=
    fun e he => Function.update_of_ne (h.fresh e he).ne ..
  rw [entries, pushFront]
  dsimp only
  rw [List.filterMap_cons, Function.update_self, List.filterMap_congr hold, entries]

theorem entries_removeBack (h : l.Indexed) : l.removeBack.entries = l.entries.dropLast := by
  rcases List.eq_nil_or_concat l.doubleLinkedlist with hnil | ⟨init, last, hlist⟩
  · rw [removeBack, hnil]
    simp [entries, hnil]
  · rw [List.concat_eq_append] at hlist
    obtain ⟨k, v, he, -⟩ := h.stored last (hlist ▸ List.mem_append_right _ List.mem_cons_self)
    rw [removeBack, hlist, List.getLast?_concat, Option.bind_some, he]
    dsimp only
    rw [entries, entries, hlist, List.dropLast_concat, List.filterMap_append, List.filterMap_cons, he]
    dsimp only
    rw [List.filterMap_nil, List.dropLast_concat]

omit [DecidableEq K] [DecidableEq V] in
theorem length_entries (h : l.Indexed) : l.entries.length = l.doubleLinkedlist.length := by
  rw [entries, List.filterMap_length_eq_length]
  intro e he
  obtain ⟨k, v, helement, -⟩ := h.stored e he
  rw [helement]
  rfl

/-- A pair that is held is put in front. -/
theorem put_of_caches (hc : l.Caches key value) :
    ∃ e, l.keyToElement key = some e ∧ l.element e = some (key, value) ∧
      l.put key value = l.moveToFront e := by
  obtain ⟨e, hkey, he⟩ := hc
  refine ⟨e, hkey, he, ?_⟩
  rw [put, hkey]
  dsimp only
  rw [← he, Function.update_eq_self]

end

/-! ## Runs -/

section

variable [DecidableEq K] [DecidableEq V] {l : Lru K V} {u : List K}

/-- The cache is well-formed, and its keys are those used last, as many as there is room for. -/
structure Follows (l : Lru K V) (u : List K) : Prop extends l.WellFormed where
  keys : l.keys = (recent u).take l.capacity.toNat

omit [DecidableEq V] in
/-- A pair that is used is that used last. -/
theorem Follows.move (h : l.Follows u) {key : K} {value : V} {e : ℕ}
    (hmem : e ∈ l.doubleLinkedlist) (he : l.element e = some (key, value)) :
    (l.moveToFront e).Follows (u ++ [key]) where
  indexed := (reordered_moveToFront e).indexed h.indexed
  length_le := by
    rw [(reordered_moveToFront (l := l) e).perm.length_eq]
    exact h.length_le
  keys := by
    obtain ⟨k, v, he', hkey, hvalue⟩ := h.indexed.stored e hmem
    obtain ⟨rfl, rfl⟩ := Prod.mk.inj (Option.some.inj (he.symm.trans he'))
    have hin := mem_keys_of_caches h.indexed ⟨e, hkey, he⟩
    rw [h.keys] at hin
    rw [keys_moveToFront h.indexed hmem he, h.keys, take_of_mem hin, recent_concat]
    rfl

/-- A new pair is that used last, and the first one goes if there is no room for it. -/
theorem Follows.push (h : l.Follows u) {key : K} {value : V} (hcapacity : 0 ≤ l.capacity)
    (hnew : l.IsNew key value) : (l.put key value).Follows (u ++ [key]) where
  toWellFormed := wellFormed_put h.toWellFormed hnew
  keys := by
    have hnotMem : key ∉ (recent u).take l.capacity.toNat := by
      rw [← h.keys]
      intro hmem
      obtain ⟨e, -, hkey⟩ := keyToElement_of_mem_keys h.indexed hmem
      rw [hnew.key] at hkey
      cases hkey
    have hlength : l.keys.length = l.doubleLinkedlist.length := by
      rw [Lru.keys, List.length_map, length_entries h.indexed]
    have hle := h.length_le
    have hpush := indexed_pushFront h.indexed hnew
    rw [capacity_put, recent_concat, ← take_of_notMem hnotMem, ← h.keys, put_of_isNew hnew]
    split
    · -- The last key goes, as there were as many as there can be.
      rename_i hfull
      rw [Lru.keys, entries_removeBack hpush, entries_pushFront h.indexed, List.dropLast_eq_take,
        List.map_take, List.map_cons, ← Lru.keys, List.length_cons, length_entries h.indexed]
      congr 1
      omega
    · rename_i hfull
      rw [Lru.keys, entries_pushFront h.indexed, List.map_cons, ← Lru.keys,
        List.take_of_length_le (by rw [List.length_cons, hlength]; omega)]

theorem Follows.step (h : l.Follows u) (hcapacity : 0 ≤ l.capacity) {op : LruOperation K V}
    (hop : l.Permits op) : (l.step op).Follows (u ++ (l.used op).toList) := by
  have hload {X : Type} (map : X → Option ℕ) (x : X) (hmap : ∀ e, map x = some e →
      e ∈ l.doubleLinkedlist) : (l.load map x).2.Follows
        (u ++ ((l.load map x).1.map Prod.fst).toList) := by
    cases hx : map x with
    | none =>
      rw [load, hx]
      simpa using h
    | some e =>
      obtain ⟨key, value, he, -⟩ := h.indexed.stored e (hmap e hx)
      rw [load_of_some hx, he]
      exact h.move (hmap e hx) he
  cases op with
  | put key value =>
    rcases hop with hnew | hc
    · exact h.push hcapacity hnew
    · obtain ⟨e, hkey, he, hput⟩ := put_of_caches hc
      have hmove := h.move (h.indexed.key_mem _ _ hkey).1 he
      rwa [← hput] at hmove
  | get key =>
    have hget := hload l.keyToElement key fun e he => (h.indexed.key_mem key e he).1
    have hused : l.used (.get key) = (l.load l.keyToElement key).1.map Prod.fst := by
      rw [used, get]
      cases hkey : l.keyToElement key with
      | none => rw [load, hkey]; rfl
      | some e =>
        obtain ⟨hmem, value, he⟩ := h.indexed.key_mem key e hkey
        rw [load_of_some hkey, he]
        rfl
    rw [hused]
    exact hget
  | getKeyFromValue value =>
    exact hload l.valueToElement value fun e he => (h.indexed.value_mem value e he).1

theorem capacity_step (l : Lru K V) (op : LruOperation K V) : (l.step op).capacity = l.capacity := by
  cases op with
  | put key value => exact capacity_put l key value
  | get key => exact (reordered_get key).capacity
  | getKeyFromValue value => exact (reordered_getKeyFromValue value).capacity

theorem Follows.run (h : l.Follows u) (hcapacity : 0 ≤ l.capacity) {ops : List (LruOperation K V)}
    (hops : l.IsPermitted ops) : (l.run ops).Follows (u ++ l.uses ops) := by
  induction ops generalizing l u with
  | nil =>
    rw [uses, List.append_nil]
    exact h
  | cons op ops ih =>
    rw [uses, ← List.append_assoc]
    exact ih (h.step hcapacity hops.1) (by rwa [capacity_step]) hops.2

omit [DecidableEq V] in
theorem follows_empty {capacity : ℤ} (hcapacity : 0 ≤ capacity) :
    ({ capacity } : Lru K V).Follows [] where
  indexed := indexed_empty capacity
  length_le := hcapacity
  keys := (List.take_nil ..).symm

/-- What a cache keeps after the pairs of some keys were used: the list and the two maps have the same
    pairs, those of the keys used last. A new pair takes the place of the one used first. -/
structure Faithful (l : Lru K V) (u : List K) : Prop where
  indexed : l.Indexed
  agrees (key : K) (value : V) :
    (l.getKeyFromValue value).1 = some key ↔ (l.get key).1 = some value
  length_le : (l.doubleLinkedlist.length : ℤ) ≤ l.capacity
  keys : l.keys = (recent u).take l.capacity.toNat
  evicts {key : K} {value : V} (hnew : l.IsNew key value)
    (hfull : (l.doubleLinkedlist.length : ℤ) = l.capacity) {rest : List (K × V)} {key' : K}
    {value' : V} (hlast : l.entries = rest ++ [(key', value')]) :
    (l.put key value).Indexed ∧ (l.put key value).entries = (key, value) :: rest ∧
      (l.put key value).keyToElement key' = none ∧ (l.put key value).valueToElement value' = none

/-- The pair used first goes, from the list and from both maps. -/
theorem evicts_of_indexed (h : l.Indexed) {key : K} {value : V} (hnew : l.IsNew key value)
    (hfull : (l.doubleLinkedlist.length : ℤ) = l.capacity) {rest : List (K × V)} {key' : K}
    {value' : V} (hlast : l.entries = rest ++ [(key', value')]) :
    (l.put key value).entries = (key, value) :: rest ∧
      (l.put key value).keyToElement key' = none ∧ (l.put key value).valueToElement value' = none := by
  have hpush := indexed_pushFront h hnew
  have hpushed : (l.pushFront key value).entries = ((key, value) :: rest) ++ [(key', value')] := by
    rw [entries_pushFront h, hlast, List.cons_append]
  have hput : l.put key value = (l.pushFront key value).removeBack := by
    rw [put_of_isNew hnew, if_pos (by push_cast; omega)]
  have hentries := entries_removeBack hpush
  rw [hpushed, List.dropLast_concat] at hentries
  rw [hput]
  refine ⟨hentries, ?_⟩
  -- The pair behind is that of the last element.
  have hne : (l.pushFront key value).doubleLinkedlist ≠ [] := List.cons_ne_nil _ _
  obtain ⟨k, v, helement, -, -, hremove⟩ := removeBack_eq hpush hne
  have hpair : (k, v) = (key', value') := by
    rw [entries, ← List.dropLast_append_getLast hne, List.filterMap_append, List.filterMap_cons,
      helement] at hpushed
    exact (List.append_inj' hpushed rfl).2 |> List.cons.inj |>.1
  obtain ⟨rfl, rfl⟩ := Prod.mk.inj hpair
  rw [hremove]
  exact ⟨Function.update_self .., Function.update_self ..⟩

end

/-- As long as the pairs put are new or held, a cache holds those of the keys used last, in its list
    and in both maps. -/
theorem lru_faithful [DecidableEq K] [DecidableEq V] {capacity : ℤ} (hcapacity : 0 ≤ capacity)
    (ops : List (LruOperation K V)) (hops : ({ capacity } : Lru K V).IsPermitted ops) :
    (({ capacity } : Lru K V).run ops).Faithful (({ capacity } : Lru K V).uses ops) := by
  have h := (follows_empty hcapacity).run hcapacity hops
  refine ⟨h.indexed, fun key value => ?_, h.length_le, h.keys, fun hnew hfull _ _ _ hlast =>
    ⟨(wellFormed_put h.toWellFormed hnew).indexed, evicts_of_indexed h.indexed hnew hfull hlast⟩⟩
  rw [h.indexed.getKeyFromValue_eq_some, h.indexed.get_eq_some]

/-- A pair is used again, and the other one is evicted. -/
theorem lru_faithful_example :
    (({ capacity := 2 } : Lru ℕ ℕ).run [.put 1 10, .put 2 20, .get 1, .put 3 30, .put 1 10]).Faithful
      (({ capacity := 2 } : Lru ℕ ℕ).uses [.put 1 10, .put 2 20, .get 1, .put 3 30, .put 1 10]) :=
  lru_faithful (by decide) _ ⟨.inl ⟨rfl, rfl⟩, .inl ⟨rfl, rfl⟩, trivial, .inl ⟨rfl, rfl⟩,
    .inr ⟨0, rfl, rfl⟩, trivial⟩

/-- A key has got another value, from which it is not found. -/
theorem lru_unfaithful : ¬ ∀ key value,
    ((({ capacity := 2 } : Lru ℕ ℕ).run [.put 1 10, .put 1 20]).getKeyFromValue value).1 = some key ↔
      ((({ capacity := 2 } : Lru ℕ ℕ).run [.put 1 10, .put 1 20]).get key).1 = some value :=
  fun h => absurd ((h 1 20).2 (by decide)) (by decide)

end Lru

end Gzv2ray.Cache
