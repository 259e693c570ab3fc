import Mathlib.Data.List.Nodup
import Mathlib.Logic.Function.Basic

/-!
# Dictionaries

Two models of a dictionary.

* `PMap K V`, a map without an order: what `get` and `put` of a hash map observe.
* `Dict K V`, a map that remembers the order its keys were inserted in, as a
  Python `dict` does: `keys` is what a loop over the dictionary visits.  That the
  listed keys are the keys of the map, each listed once, is part of the type.
-/

universe u v

namespace Lib

variable {K : Type u} {V : Type v}

/-- A map without an order: the value under each key, if there is one. -/
def PMap (K : Type u) (V : Type v) : Type (max u v) := K → Option V

namespace PMap

def empty : PMap K V := fun _ ↦ none

def get (m : PMap K V) (k : K) : Option V := m k

@[simp] theorem get_empty (k : K) : (empty : PMap K V).get k = none := rfl

@[ext] theorem ext {m m' : PMap K V} (h : ∀ k, m.get k = m'.get k) : m = m' := funext h

variable [DecidableEq K]

/-- The map with `v` under `k`, whatever was there before. -/
def put (m : PMap K V) (k : K) (v : V) : PMap K V := Function.update m k (some v)

@[simp] theorem get_put_self (m : PMap K V) (k : K) (v : V) : (m.put k v).get k = some v :=
  Function.update_self k _ m

@[simp] theorem get_put_of_ne (m : PMap K V) {k k' : K} (h : k' ≠ k) (v : V) :
    (m.put k v).get k' = m.get k' :=
  Function.update_of_ne h _ m

theorem get_put (m : PMap K V) (k k' : K) (v : V) :
    (m.put k v).get k' = if k' = k then some v else m.get k' := by
  by_cases h : k' = k
  · subst h; simp
  · simp [h]

end PMap

/-- A dictionary that remembers the order in which its keys were inserted. -/
structure Dict (K : Type u) (V : Type v) where
  /-- The keys, in the order a loop over the dictionary visits them. -/
  keys : List K
  get : K → Option V
  /-- No key is listed twice. -/
  nodup_keys : keys.Nodup
  /-- The keys listed are the keys that have a value. -/
  mem_keys : ∀ k, k ∈ keys ↔ (get k).isSome

namespace Dict

def empty : Dict K V where
  keys := []
  get _ := none
  nodup_keys := List.nodup_nil
  mem_keys _ := by simp

@[simp] theorem get_empty (k : K) : (empty : Dict K V).get k = none := rfl

theorem exists_get_of_mem {d : Dict K V} {k : K} (h : k ∈ d.keys) : ∃ v, d.get k = some v :=
  Option.isSome_iff_exists.mp ((d.mem_keys k).mp h)

theorem mem_keys_of_get {d : Dict K V} {k : K} {v : V} (h : d.get k = some v) : k ∈ d.keys :=
  (d.mem_keys k).mpr (Option.isSome_iff_exists.mpr ⟨v, h⟩)

/-- Two dictionaries with the same keys in the same order and the same values
are equal. -/
@[ext] theorem ext {d d' : Dict K V} (hk : d.keys = d'.keys) (hg : ∀ k, d.get k = d'.get k) :
    d = d' := by
  obtain ⟨ks, g, _, _⟩ := d
  obtain ⟨ks', g', _, _⟩ := d'
  obtain rfl : ks = ks' := hk
  obtain rfl : g = g' := funext hg
  rfl

variable [DecidableEq K]

/-- Assignment: a key that is there keeps its place, a new one goes last. -/
def set (d : Dict K V) (k : K) (v : V) : Dict K V where
  keys := if k ∈ d.keys then d.keys else d.keys ++ [k]
  get := Function.update d.get k (some v)
  nodup_keys := by
    split
    · exact d.nodup_keys
    · next h =>
        refine List.nodup_append.mpr ⟨d.nodup_keys, List.nodup_singleton k, ?_⟩
        rintro a ha b hb rfl
        exact h (List.mem_singleton.mp hb ▸ ha)
  mem_keys k' := by
    by_cases hk : k' = k
    · subst hk
      by_cases h : k' ∈ d.keys <;> simp [h]
    · rw [Function.update_of_ne hk, ← d.mem_keys k']
      by_cases h : k ∈ d.keys <;> simp [h, hk]

@[simp] theorem get_set_self (d : Dict K V) (k : K) (v : V) : (d.set k v).get k = some v :=
  Function.update_self k _ d.get

@[simp] theorem get_set_of_ne (d : Dict K V) {k k' : K} (h : k' ≠ k) (v : V) :
    (d.set k v).get k' = d.get k' :=
  Function.update_of_ne h _ d.get

/-- Assigning to a key that is there adds no key and moves none. -/
theorem keys_set_of_mem (d : Dict K V) {k : K} (h : k ∈ d.keys) (v : V) :
    (d.set k v).keys = d.keys := if_pos h

end Dict

end Lib
