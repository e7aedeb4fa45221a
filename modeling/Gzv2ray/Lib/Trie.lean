import Mathlib.Data.List.Infix
import Mathlib.Tactic

/-!
# Tries

A trie keeps values under keys, which are lists. The values of one key are in the order in
which they were added.

* `Trie.find_addAll`: the values of a key are those that were added under it;
* `Trie.flatten_walk`: the values on the way along a key are those of its prefixes.
-/

/-- A node has the values of its key, and a node for each way on. -/
inductive Trie (κ ν : Type*)
  | node (values : List ν) (sub : κ → Option (Trie κ ν))

namespace Trie

variable {κ ν : Type*}

def values : Trie κ ν → List ν
  | node values _ => values

def sub : Trie κ ν → κ → Option (Trie κ ν)
  | node _ sub => sub

def empty : Trie κ ν := node [] fun _ => none

/-- Adds a value under a key. -/
def add [DecidableEq κ] : List κ → ν → Trie κ ν → Trie κ ν
  | [], v, t => node (t.values ++ [v]) t.sub
  | k :: ks, v, t =>
    node t.values (Function.update t.sub k (some (add ks v ((t.sub k).getD empty))))

/-- The values of a key. -/
def find : List κ → Trie κ ν → List ν
  | [], t => t.values
  | k :: ks, t =>
    match t.sub k with
    | none => []
    | some next => find ks next

/-- The values on the way along a key, where there are some. -/
def walk : List κ → Trie κ ν → List (List ν)
  | [], _ => []
  | k :: ks, t =>
    match t.sub k with
    | none => []
    | some next => (if next.values = [] then [] else [next.values]) ++ walk ks next

@[simp] theorem find_nil (t : Trie κ ν) : t.find [] = t.values := rfl

theorem find_empty (ks : List κ) : (empty : Trie κ ν).find ks = [] := by
  cases ks <;> rfl

theorem find_cons (k : κ) (ks : List κ) (t : Trie κ ν) :
    t.find (k :: ks) = ((t.sub k).getD empty).find ks := by
  rw [find]
  cases t.sub k with
  | none => exact (find_empty ks).symm
  | some next => rfl

section

variable [DecidableEq κ]

theorem find_add (ks ks' : List κ) (v : ν) (t : Trie κ ν) :
    (t.add ks v).find ks' = t.find ks' ++ if ks = ks' then [v] else [] := by
  induction ks generalizing ks' t with
  | nil =>
    cases ks' with
    | nil => rfl
    | cons k' ks' =>
      rw [find_cons, find_cons, if_neg (List.cons_ne_nil k' ks').symm, List.append_nil]
      rfl
  | cons k ks ih =>
    cases ks' with
    | nil =>
      rw [if_neg (List.cons_ne_nil k ks), List.append_nil]
      rfl
    | cons k' ks' =>
      rw [find_cons, find_cons, add]
      by_cases hk : k = k'
      · rw [hk, sub, Function.update_self, Option.getD_some, ih]
        simp only [List.cons.injEq, true_and]
      · rw [sub, Function.update_of_ne (Ne.symm hk),
          if_neg fun heq => hk (List.cons.inj heq).1, List.append_nil]

/-- Adds the values of a list, each under its key. -/
def addAll (l : List (List κ × ν)) (t : Trie κ ν) : Trie κ ν :=
  l.foldl (fun t a => t.add a.1 a.2) t

theorem find_addAll (l : List (List κ × ν)) (t : Trie κ ν) (ks : List κ) :
    (t.addAll l).find ks = t.find ks ++ (l.filter fun a => a.1 = ks).map Prod.snd := by
  induction l generalizing t with
  | nil => exact (List.append_nil _).symm
  | cons a l ih =>
    rw [addAll, List.foldl_cons, ← addAll, ih, find_add, List.append_assoc, List.filter_cons]
    by_cases ha : a.1 = ks
    · rw [if_pos ha, if_pos (decide_eq_true ha)]
      rfl
    · rw [if_neg ha, if_neg (by rwa [decide_eq_true_iff])]
      rfl

end

/-- The values on the way along a key, the last ones first, are those of its prefixes. -/
theorem flatten_walk (ks : List κ) (t : Trie κ ν) :
    (t.walk ks).reverse.flatten = ks.inits.tail.reverse.flatMap fun l => t.find l := by
  induction ks generalizing t with
  | nil => rfl
  | cons k ks ih =>
    have hinits : (k :: ks).inits.tail.reverse =
        (ks.inits.tail.reverse.map fun l => k :: l) ++ [[k]] := by
      rw [List.inits_cons, List.tail_cons, ← List.map_reverse]
      cases ks <;> simp
    have hvalues (next : Trie κ ν) :
        (if next.values = [] then [] else [next.values]).reverse.flatten = next.values := by
      split
      next hnil => rw [hnil]; rfl
      · exact List.append_nil _
    rw [hinits, List.flatMap_append, List.flatMap_map, List.flatMap_singleton]
    simp only [find_cons, find_nil]
    rw [walk]
    cases t.sub k with
    | none =>
      simp only [Option.getD_none, find_empty]
      rw [List.flatMap_eq_nil_iff.2 fun _ _ => rfl]
      rfl
    | some next =>
      rw [List.reverse_append, List.flatten_append, ih, hvalues, Option.getD_some]

end Trie
