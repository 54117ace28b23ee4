import Mathlib.Data.Int.Notation
import Mathlib.Data.Nat.Notation

set_option autoImplicit false

/-! # Lists with negative indices

`items[index]`, `items[start:]` and `items[:stop]`, where an index below zero counts from the end. -/

namespace PyList

variable {α : Type*}

/-- `items[index]`; `none` is the `IndexError`. -/
def item (items : List α) (index : ℤ) : Option α :=
  if 0 ≤ index then items[index.toNat]?
  else if -index ≤ items.length then items[(items.length + index).toNat]?
  else none

theorem item_natCast (items : List α) (i : ℕ) : item items i = items[i]? := by
  rw [item, if_pos (Int.natCast_nonneg i), Int.toNat_natCast]

/-- The index `-1` is that of the last entry. -/
theorem item_neg_one (items : List α) : item items (-1) = items.getLast? := by
  rw [item, if_neg (by decide), List.getLast?_eq_getElem?]
  by_cases hne : 1 ≤ items.length
  · rw [if_pos (by omega), show ((items.length : ℤ) + -1).toNat = items.length - 1 by omega]
  · rw [if_neg (by omega), List.getElem?_eq_none (by omega)]

/-- The place an index of a slice stands for. -/
def place (items : List α) (index : ℤ) : ℕ := if 0 ≤ index then index.toNat else items.length - index.natAbs

/-- `items[start:]`. -/
def sliceFrom (start : ℤ) (items : List α) : List α := items.drop (place items start)

/-- `items[:stop]`. -/
def sliceTo (stop : ℤ) (items : List α) : List α := items.take (place items stop)

theorem place_natCast (items : List α) (i : ℕ) : place items i = i := by
  rw [place, if_pos (Int.natCast_nonneg i), Int.toNat_natCast]

theorem sliceFrom_natCast (i : ℕ) (items : List α) : sliceFrom i items = items.drop i := by
  rw [sliceFrom, place_natCast]

theorem sliceTo_natCast (i : ℕ) (items : List α) : sliceTo i items = items.take i := by
  rw [sliceTo, place_natCast]

end PyList
