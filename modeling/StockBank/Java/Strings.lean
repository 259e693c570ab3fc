import StockBank.Lib.Search
import Mathlib.Data.List.Lex

/-!
# Java strings

A Java string is a sequence of `char`s, which are the units of UTF-16: a character beyond
the basic plane is two of them.  `String.compareTo` orders strings by their units, and
`Arrays.binarySearch` searches for a string in that order.
-/

namespace StockBank.Java

open Lib

/-- The units of a character. -/
def units (c : Char) : List ℕ :=
  if c.toNat < 0x10000 then
    [c.toNat]
  else
    [0xD800 + (c.toNat - 0x10000) / 0x400, 0xDC00 + (c.toNat - 0x10000) % 0x400]

/-- `String.toCharArray`. -/
def chars (s : String) : List ℕ := s.toList.flatMap units

/-- A character that is not a surrogate. -/
theorem toNat_valid (c : Char) :
    c.toNat < 0xD800 ∨ 0xDFFF < c.toNat ∧ c.toNat < 0x110000 := c.valid

/-- The first units tell the character. -/
theorem units_append_inj {c d : Char} {us vs : List ℕ} (h : units c ++ us = units d ++ vs) :
    c = d ∧ us = vs := by
  have hc := toNat_valid c
  have hd := toNat_valid d
  rw [units, units] at h
  split at h <;> split at h <;> simp only [List.cons_append, List.nil_append, List.cons.injEq] at h
  · exact ⟨Char.toNat_inj.mp h.1, h.2⟩
  · omega
  · omega
  · exact ⟨Char.toNat_inj.mp (by omega), h.2.2⟩

theorem chars_injective : Function.Injective chars := by
  have hlist : ∀ cs ds : List Char, cs.flatMap units = ds.flatMap units → cs = ds := by
    have hne : ∀ (c : Char) (us : List ℕ), [] ≠ units c ++ us := by
      intro c us
      rw [units]
      split <;> simp
    intro cs
    induction cs with
    | nil =>
        rintro (_ | ⟨d, ds⟩) h
        · rfl
        · exact absurd h (hne d _)
    | cons c cs ih =>
        rintro (_ | ⟨d, ds⟩) h
        · exact absurd h.symm (hne c _)
        · obtain ⟨rfl, h'⟩ := units_append_inj h
          rw [ih ds h']
  intro s t h
  exact String.toList_inj.mp (hlist _ _ h)

/-- `Arrays.binarySearch`, for strings. -/
def binarySearch (a : List String) (key : String) : ℤ := Lib.binarySearch (a.map chars) (chars key)

/-- The strings are in the order in which they are searched. -/
abbrev Searchable (a : List String) : Prop := (a.map chars).SortedLT

section

variable {a : List String} {key : String}

theorem binarySearch_eq_of_getElem? (ha : Searchable a) {i : ℕ} (h : a[i]? = some key) :
    binarySearch a key = i := by
  apply Lib.binarySearch_eq_of_getElem? ha
  rw [List.getElem?_map, h]
  rfl

/-- A position that is returned is one of the string, in order or not. -/
theorem getElem?_of_binarySearch {i : ℕ} (h : binarySearch a key = i) : a[i]? = some key := by
  have hnonneg : 0 ≤ binarySearch a key := by
    rw [h]
    exact Int.natCast_nonneg i
  have hfound := getElem?_of_binarySearchFrom_nonneg hnonneg
  change (a.map chars)[(binarySearch a key).toNat]? = some (chars key) at hfound
  rw [h, Int.toNat_natCast, List.getElem?_map] at hfound
  obtain ⟨s, hs, hchars⟩ := Option.map_eq_some_iff.mp hfound
  rw [hs, chars_injective hchars]

theorem binarySearch_neg_iff (ha : Searchable a) : binarySearch a key < 0 ↔ key ∉ a := by
  rw [binarySearch, Lib.binarySearch_neg_iff ha, List.mem_map_of_injective chars_injective]

/-- A string that is not there has no position. -/
theorem exists_binarySearch_negSucc (ha : Searchable a) (h : key ∉ a) :
    ∃ n, binarySearch a key = Int.negSucc n :=
  Int.eq_negSucc_of_lt_zero ((binarySearch_neg_iff ha).mpr h)

theorem binarySearch_nonneg_iff (ha : Searchable a) : 0 ≤ binarySearch a key ↔ key ∈ a := by
  rw [← not_lt, binarySearch_neg_iff ha, not_not]

end

end StockBank.Java
