import Mathlib.Data.List.Count
import Mathlib.Algebra.Order.Group.Int
import TestInfra.Lib.Dict

set_option autoImplicit false

/-! # The reservations of the dynamic VM service

`reserved_count_by_label` holds, for every label, the number of VMs that requests in flight have asked
for and not got yet; requests without labels are kept under the key `None`. A label is only entered
when it is first reserved, so the table is read through `amount`, where a missing label counts as 0. -/

namespace TestInfra

namespace DynVm

/-- The labels of a request or of a xen host; `None` when none were given. -/
abbrev Labels := Option (List String)

/-- `reserved_count_by_label`. -/
abbrev Reserved := Dict (Option String) Int

/-- The entries that a call with these labels works on: `if labels: … else: label = None`. -/
def labelKeys : Labels → List (Option String)
  | none => [none]
  | some [] => [none]
  | some (l :: ls) => (l :: ls).map some

/-- One entry of `increase_reserved`. -/
def increaseOne (count : Int) (table : Reserved) (l : Option String) : Reserved :=
  match table.get? l with
  | some v => table.set l (v + count)
  | none => table.set l count

/-- One entry of `decrease_reserved`. -/
def decreaseOne (count : Int) (table : Reserved) (l : Option String) : Reserved :=
  match table.get? l with
  | some v => table.set l (max 0 (v - count))
  | none => table

/-- `increase_reserved`. -/
def increaseReserved (count : Int) (labels : Labels) (table : Reserved) : Reserved :=
  (labelKeys labels).foldl (increaseOne count) table

/-- `decrease_reserved`. -/
def decreaseReserved (count : Int) (labels : Labels) (table : Reserved) : Reserved :=
  (labelKeys labels).foldl (decreaseOne count) table

/-- `get_reserved`: the largest entry of the labels. Without labels the entry under `None` is returned
    as it stands. -/
def getReserved (labels : Labels) (table : Reserved) : Int :=
  match labels with
  | none => (table.get? none).getD 0
  | some [] => (table.get? none).getD 0
  | some (l :: ls) =>
      (l :: ls).foldl
        (fun reserved l =>
          match table.get? (some l) with
          | some v => max reserved v
          | none => reserved) 0

/-- What is reserved under `l`. -/
def amount (table : Reserved) (l : Option String) : Int := (table.get? l).getD 0

/-- How often a call with these labels works on the entry `l`. -/
def weight (labels : Labels) (l : Option String) : Int := (labelKeys labels).count l

theorem weight_nonneg (labels : Labels) (l : Option String) : 0 ≤ weight labels l :=
  Int.natCast_nonneg _

theorem amount_increaseOne (count : Int) (table : Reserved) (l k : Option String) :
    amount (increaseOne count table k) l = amount table l + if l = k then count else 0 := by
  by_cases hlk : l = k
  · subst hlk
    rw [if_pos rfl, increaseOne, amount, amount]
    cases hget : table.get? l <;> simp
  · rw [if_neg hlk, increaseOne, amount, amount]
    cases hget : table.get? k <;> simp [hlk]

theorem amount_decreaseOne {count : Int} {table : Reserved} {l k : Option String}
    (hcount : 0 ≤ count) (hamount : 0 ≤ amount table l) :
    amount (decreaseOne count table k) l
      = max 0 (amount table l - if l = k then count else 0) := by
  by_cases hlk : l = k
  · subst hlk
    rw [if_pos rfl, decreaseOne, amount, amount]
    cases hget : table.get? l with
    | none => simp [hget, hcount]
    | some v => simp
  · have hsame : amount (decreaseOne count table k) l = amount table l := by
      rw [decreaseOne, amount, amount]
      cases hget : table.get? k <;> simp [hlk]
    rw [if_neg hlk, hsame, sub_zero, max_eq_right hamount]

theorem count_cons_int (k l : Option String) (ks : List (Option String)) (c : Int) :
    c * ((k :: ks).count l : Int) = c * (ks.count l : Int) + if l = k then c else 0 := by
  rw [List.count_cons]
  by_cases hlk : l = k
  · subst hlk; simp [Int.mul_add]
  · simp [hlk, Ne.symm hlk]

/-- `increase_reserved` adds the count once for every mention of the label. -/
theorem amount_increaseReserved (count : Int) (labels : Labels) (table : Reserved)
    (l : Option String) :
    amount (increaseReserved count labels table) l = amount table l + count * weight labels l := by
  unfold increaseReserved weight
  generalize labelKeys labels = ks
  induction ks generalizing table with
  | nil => simp
  | cons k ks ih =>
      rw [List.foldl_cons, ih, amount_increaseOne, count_cons_int]
      omega

/-- `decrease_reserved` takes the count off once for every mention of the label, down to zero. -/
theorem amount_decreaseReserved {count : Int} (hcount : 0 ≤ count) (labels : Labels)
    {table : Reserved} {l : Option String} (hamount : 0 ≤ amount table l) :
    amount (decreaseReserved count labels table) l
      = max 0 (amount table l - count * weight labels l) := by
  unfold decreaseReserved weight
  generalize labelKeys labels = ks
  induction ks generalizing table with
  | nil => simp [max_eq_right hamount]
  | cons k ks ih =>
      have hone := amount_decreaseOne (k := k) hcount hamount
      have hnonneg : 0 ≤ amount (decreaseOne count table k) l := hone ▸ le_max_left _ _
      have hks : 0 ≤ count * (ks.count l : Int) :=
        Int.mul_nonneg hcount (Int.natCast_nonneg _)
      rw [List.foldl_cons, ih hnonneg, hone, count_cons_int]
      omega

/-- Every call works on at least one entry. -/
theorem exists_mem_labelKeys (labels : Labels) : ∃ l, l ∈ labelKeys labels :=
  match labels with
  | none => ⟨none, List.mem_singleton_self none⟩
  | some [] => ⟨none, List.mem_singleton_self none⟩
  | some (l :: _) => ⟨some l, List.mem_cons_self⟩

theorem one_le_weight {labels : Labels} {l : Option String} (hl : l ∈ labelKeys labels) :
    1 ≤ weight labels l :=
  Int.ofNat_le.2 (List.count_pos_iff.2 hl)

theorem le_foldl_max (table : Reserved) (ls : List String) (v : Int) :
    v ≤ ls.foldl (fun reserved l =>
        match table.get? (some l) with
        | some v => max reserved v
        | none => reserved) v ∧
      ∀ l ∈ ls, amount table (some l) ≤ max 0 (ls.foldl (fun reserved l =>
        match table.get? (some l) with
        | some v => max reserved v
        | none => reserved) v) := by
  induction ls generalizing v with
  | nil => exact ⟨le_rfl, fun l hl => absurd hl List.not_mem_nil⟩
  | cons k rest ih =>
      rw [List.foldl_cons]
      cases hget : table.get? (some k) with
      | none =>
          obtain ⟨hv, hrest⟩ := ih v
          refine ⟨hv, ?_⟩
          intro l hl
          rcases List.mem_cons.1 hl with rfl | hl
          · rw [amount, hget]; exact le_max_left _ _
          · exact hrest l hl
      | some w =>
          obtain ⟨hv, hrest⟩ := ih (max v w)
          refine ⟨le_trans (le_max_left v w) hv, ?_⟩
          intro l hl
          rcases List.mem_cons.1 hl with rfl | hl
          · rw [amount, hget]
            exact le_trans (le_trans (le_max_right v w) hv) (le_max_right _ _)
          · exact hrest l hl

/-- `get_reserved` is not below any of its entries. -/
theorem amount_le_getReserved {labels : Labels} {l : Option String} (hl : l ∈ labelKeys labels)
    (table : Reserved) : amount table l ≤ getReserved labels table := by
  match labels, hl with
  | none, hl =>
      obtain rfl := List.mem_singleton.1 hl
      exact le_rfl
  | some [], hl =>
      obtain rfl := List.mem_singleton.1 hl
      exact le_rfl
  | some (k :: ks), hl =>
      obtain ⟨l, hmem, rfl⟩ := List.mem_map.1 hl
      obtain ⟨hzero, hle⟩ := le_foldl_max table (k :: ks) 0
      exact (hle l hmem).trans (max_le hzero le_rfl)

end DynVm

end TestInfra
