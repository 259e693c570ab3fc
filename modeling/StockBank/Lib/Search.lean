import Mathlib.Data.List.Sort

/-!
# Binary search

The search of `java.util.Arrays.binarySearch`, in a list over a linear order: it returns
the position of the key or, when the key is not there, a negative number that tells
where it would be.

In a list in increasing order it finds every element at its own position
(`binarySearch_eq_of_getElem?`), and nothing else (`binarySearch_neg_iff`).
-/

universe u

namespace Lib

variable {α : Type u} [LinearOrder α]

/-- The search from `low` up to, and not including, `high`.  A position that the list does
not have is never looked at. -/
def binarySearchFrom (a : List α) (key : α) (low high : ℕ) : ℤ :=
  if low < high then
    let mid := (low + (high - 1)) / 2
    match a[mid]? with
    | none => -(low + 1)
    | some midVal =>
      if midVal < key then binarySearchFrom a key (mid + 1) high
      else if key < midVal then binarySearchFrom a key low mid
      else mid
  else
    -(low + 1)
termination_by high - low

/-- `Arrays.binarySearch`. -/
def binarySearch (a : List α) (key : α) : ℤ := binarySearchFrom a key 0 a.length

/-- A position that is returned is one of the key. -/
theorem getElem?_of_binarySearchFrom_nonneg {a : List α} {key : α} {low high : ℕ}
    (h : 0 ≤ binarySearchFrom a key low high) :
    a[(binarySearchFrom a key low high).toNat]? = some key := by
  fun_induction binarySearchFrom a key low high with
  | case1 | case5 => omega
  | case2 low high hlt mid midVal hmid hless ih => exact ih h
  | case3 low high hlt mid midVal hmid hless hgreater ih => exact ih h
  | case4 low high hlt mid midVal hmid hless hgreater =>
      rw [Int.toNat_natCast, hmid, le_antisymm (not_lt.mp hgreater) (not_lt.mp hless)]

/-- In a list in increasing order, the key is found where it is. -/
theorem binarySearchFrom_eq {a : List α} (ha : a.SortedLT) {key : α} {low high i : ℕ}
    (hi : a[i]? = some key) (hlow : low ≤ i) (hhigh : i < high) (hlen : high ≤ a.length) :
    binarySearchFrom a key low high = i := by
  obtain ⟨hi', hkey⟩ := List.getElem?_eq_some_iff.mp hi
  -- the key is to the right of what is less, and to the left of what is greater
  fun_induction binarySearchFrom a key low high with
  | case1 low high hlt mid hmid =>
      have hlt' := List.getElem?_eq_none_iff.mp hmid
      omega
  | case2 low high hlt mid midVal hmid hless ih =>
      obtain ⟨hmid', rfl⟩ := List.getElem?_eq_some_iff.mp hmid
      rw [← hkey] at hless
      have hright : mid < i := ha.getElem_lt_getElem_iff.mp hless
      exact ih hright hhigh hlen
  | case3 low high hlt mid midVal hmid hless hgreater ih =>
      obtain ⟨hmid', rfl⟩ := List.getElem?_eq_some_iff.mp hmid
      rw [← hkey] at hgreater
      have hleft : i < mid := ha.getElem_lt_getElem_iff.mp hgreater
      exact ih hlow hleft (by omega)
  | case4 low high hlt mid midVal hmid hless hgreater =>
      obtain ⟨hmid', rfl⟩ := List.getElem?_eq_some_iff.mp hmid
      have heq : a[mid] = a[i] := by
        rw [hkey]
        exact le_antisymm (not_lt.mp hgreater) (not_lt.mp hless)
      rw [ha.nodup.getElem_inj_iff.mp heq]
  | case5 low high hlt => omega

/-- **The search finds** every element, at its position. -/
theorem binarySearch_eq_of_getElem? {a : List α} (ha : a.SortedLT) {key : α} {i : ℕ}
    (h : a[i]? = some key) : binarySearch a key = i :=
  binarySearchFrom_eq ha h (Nat.zero_le i) (List.getElem?_eq_some_iff.mp h).1 le_rfl

/-- **The search fails** for exactly the keys that are not there. -/
theorem binarySearch_neg_iff {a : List α} (ha : a.SortedLT) {key : α} :
    binarySearch a key < 0 ↔ key ∉ a := by
  constructor
  · intro h hkey
    obtain ⟨i, hi⟩ := List.mem_iff_getElem?.mp hkey
    rw [binarySearch_eq_of_getElem? ha hi] at h
    omega
  · intro hkey
    by_contra h
    exact hkey (List.mem_of_getElem? (getElem?_of_binarySearchFrom_nonneg (not_lt.mp h)))

end Lib
