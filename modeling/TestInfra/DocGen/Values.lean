import TestInfra.Lib.PyInt
import TestInfra.Lib.PyList
import Mathlib.Data.List.Rotate
import Mathlib.Tactic.Ring

set_option autoImplicit false

/-! # Documents from a list of values

`JSONNonDocGenerator` and `Base64Generator` (`lib/couchbase_helper/documentgenerator.py`) take the value of each
document from a list, again and again. The position in the list is found by a loop that subtracts the length, and one
is taken off the result, so that the first document has the index `-1`. -/

namespace TestInfra

open PyText PyList

/-- A `JSONNonDocGenerator` or a `Base64Generator`. -/
structure ValuesGenerator (V : Type) where
  name : Text
  values : List V
  start : ℤ
  stop : ℤ
  itr : ℤ

namespace ValuesGenerator

variable {V D : Type}

/-- What is given as `start` or `end`. -/
inductive Given where
  | int (i : ℤ)
  | text (t : Text)

/-- `int(..)` in `KVGenerator.__init__`, zero when there is a `ValueError`. -/
def Given.toInt : Given → ℤ
  | .int i => i
  | .text t => (readInt t).getD 0

/-- `__init__`. -/
def new (name : Text) (values : List V) (start stop : Given) : ValuesGenerator V :=
  ⟨name, values, start.toInt, stop.toInt, start.toInt⟩

/-- `while index > len(self.values)`, with at most so many tests; `none` when it is still going on. -/
def indexLoop (length : ℕ) : ℕ → ℤ → Option ℤ
  | 0, _ => none
  | fuel + 1, index => if index > length then indexLoop length fuel (index - length) else some index

/-- How a call of `__next__` ends. -/
inductive Outcome (V D : Type) where
  | returned (doc : Text × D) (after : ValuesGenerator V)
  | stopIteration
  | indexError
  | running

/-- `__next__`. `made` is what is done with the value. -/
def next (made : V → D) (fuel : ℕ) (g : ValuesGenerator V) : Outcome V D :=
  if g.itr ≥ g.stop then .stopIteration
  else
    match indexLoop g.values.length fuel g.itr with
    | none => .running
    | some index =>
        match item g.values (index - 1) with
        | none => .indexError
        | some value => .returned (g.name ++ intText g.itr, made value) { g with itr := g.itr + 1 }

/-- `JSONNonDocGenerator.__next__`; `dumps` is `json.dumps`. -/
def jsonNonDocNext (dumps : V → Text) : ℕ → ValuesGenerator V → Outcome V Text := next dumps

/-- `Base64Generator.__next__`. -/
def base64Next : ℕ → ValuesGenerator V → Outcome V V := next id

/-- So many calls of `__next__` in a row; `none` when one of them does not return a document. -/
def take (next : ValuesGenerator V → Outcome V D) :
    ℕ → ValuesGenerator V → Option (List (Text × D) × ValuesGenerator V)
  | 0, g => some ([], g)
  | n + 1, g =>
      match next g with
      | .returned doc g => (take next n g).map fun out => (doc :: out.1, out.2)
      | _ => none

/-! ## The index -/

/-- The loop ends, at the number from one to the length with the remainder of `index`. -/
theorem indexLoop_eq {length : ℕ} (hlength : 0 < length) {index : ℤ} (hindex : 0 ≤ index) {fuel : ℕ}
    (hfuel : index < fuel) :
    indexLoop length fuel index = some (if index = 0 then 0 else (index - 1) % length + 1) := by
  induction fuel generalizing index with
  | zero => omega
  | succ fuel ih =>
      rw [indexLoop]
      by_cases hmore : index > length
      · have hshift : (index - length - 1) % length = (index - 1) % length := by
          rw [show index - length - 1 = index - 1 - length by ring, Int.sub_emod_right]
        rw [if_pos hmore, ih (by omega) (by omega), if_neg (by omega), if_neg (by omega), hshift]
      · rw [if_neg hmore]
        by_cases hzero : index = 0
        · rw [if_pos hzero, hzero]
        · rw [if_neg hzero, Int.emod_eq_of_lt (by omega) (by omega), sub_add_cancel]

/-- The entry with this number, when the entries are counted from one and around. -/
def cyclic (values : List V) (itr : ℤ) : Option V := values[((itr - 1) % values.length).toNat]?

theorem cyclic_isSome {values : List V} (hne : values ≠ []) (itr : ℤ) : (cyclic values itr).isSome := by
  have hlength := List.length_pos_of_ne_nil hne
  have hlt : (itr - 1) % values.length < values.length := Int.emod_lt_of_pos _ (by omega)
  have hnonneg : 0 ≤ (itr - 1) % values.length := Int.emod_nonneg _ (by omega)
  rw [cyclic, List.getElem?_eq_getElem (by omega)]
  rfl

/-- For the first document the index `-1` is the last entry, as the remainder has it. -/
theorem item_indexLoop {values : List V} (hne : values ≠ []) (itr : ℤ) :
    item values ((if itr = 0 then 0 else (itr - 1) % values.length + 1) - 1) = cyclic values itr := by
  have hlength := List.length_pos_of_ne_nil hne
  by_cases hzero : itr = 0
  · have hlast : (-1 : ℤ) % values.length = (values.length - 1 : ℕ) := by
      rw [← Int.add_emod_right, Int.emod_eq_of_lt (by omega) (by omega)]
      omega
    rw [if_pos hzero, zero_sub, item_neg_one, cyclic, hzero, zero_sub, hlast, Int.toNat_natCast,
      List.getLast?_eq_getElem?]
  · have hnonneg : 0 ≤ (itr - 1) % values.length := Int.emod_nonneg _ (by omega)
    rw [if_neg hzero, add_sub_cancel_right, cyclic, ← item_natCast, Int.toNat_of_nonneg hnonneg]

theorem next_eq (made : V → D) {g : ValuesGenerator V} (hne : g.values ≠ []) (hitr : 0 ≤ g.itr)
    (hstop : g.itr < g.stop) {fuel : ℕ} (hfuel : g.itr < fuel) :
    ∃ value, cyclic g.values g.itr = some value ∧
      next made fuel g = .returned (g.name ++ intText g.itr, made value) { g with itr := g.itr + 1 } := by
  obtain ⟨value, hvalue⟩ := Option.isSome_iff_exists.1 (cyclic_isSome hne g.itr)
  refine ⟨value, hvalue, ?_⟩
  simp only [next, if_neg (not_le.2 hstop), indexLoop_eq (List.length_pos_of_ne_nil hne) hitr hfuel,
    item_indexLoop hne, hvalue]

/-! ## Documents in a row -/

/-- Documents in a row have the entries in a row, counted around. -/
theorem take_eq (made : V → D) {g : ValuesGenerator V} (hne : g.values ≠ []) (hitr : 0 ≤ g.itr) {n : ℕ}
    (hstop : g.itr + n ≤ g.stop) {fuel : ℕ} (hfuel : g.itr + n ≤ fuel) :
    ∃ docs, take (next made fuel) n g = some (docs, { g with itr := g.itr + n }) ∧
      docs.map Prod.fst = (List.range n).map (fun i : ℕ => g.name ++ intText (g.itr + i)) ∧
      docs.map (some ∘ Prod.snd) = (List.range n).map fun i : ℕ => (cyclic g.values (g.itr + i)).map made := by
  induction n generalizing g with
  | zero => exact ⟨[], by simp [take], rfl, rfl⟩
  | succ n ih =>
      obtain ⟨value, hvalue, hnext⟩ := next_eq made hne hitr (by omega) (show g.itr < fuel by omega)
      obtain ⟨docs, hdocs, hkeys, hvalues⟩ := ih (g := { g with itr := g.itr + 1 }) hne (by simp only; omega)
        (by simp only; omega) (by simp only; omega)
      have hshift : ∀ i : ℕ, g.itr + 1 + i = g.itr + (i + 1 : ℕ) := fun i => by push_cast; ring
      simp only [hshift] at hdocs hkeys hvalues
      refine ⟨(g.name ++ intText g.itr, made value) :: docs, ?_, ?_, ?_⟩
      · rw [take, hnext]
        simp only [hdocs, Option.map_some]
      · rw [List.map_cons, hkeys, List.range_succ_eq_map, List.map_cons, List.map_map, Nat.cast_zero, add_zero]
        rfl
      · rw [List.map_cons, hvalues, List.range_succ_eq_map, List.map_cons, List.map_map, Nat.cast_zero, add_zero,
          hvalue]
        rfl

/-- The entries around from a number on are the list, rotated. -/
theorem map_cyclic {values : List V} (hne : values ≠ []) (itr : ℤ) :
    (List.range values.length).map (fun i : ℕ => cyclic values (itr + i))
      = (values.rotate ((itr - 1) % values.length).toNat).map some := by
  have hlength := List.length_pos_of_ne_nil hne
  refine List.ext_getElem? fun i => ?_
  by_cases hi : i < values.length
  · have hpos : ((itr + i - 1) % values.length).toNat
        = (i + ((itr - 1) % values.length).toNat) % values.length := by
      have hnonneg : 0 ≤ (itr - 1) % values.length := Int.emod_nonneg _ (by omega)
      have hcast : (((i + ((itr - 1) % values.length).toNat) % values.length : ℕ) : ℤ)
          = (itr + i - 1) % values.length := by
        push_cast
        rw [Int.toNat_of_nonneg hnonneg, Int.add_emod_emod]
        congr 1
        ring
      omega
    rw [List.getElem?_map, List.getElem?_range hi, List.getElem?_map, List.getElem?_rotate hi, ← hpos, Option.map_some]
    have hsome := cyclic_isSome hne (itr + i)
    rw [cyclic] at hsome ⊢
    obtain ⟨value, hvalue⟩ := Option.isSome_iff_exists.1 hsome
    rw [hvalue, Option.map_some]
  · rw [List.getElem?_eq_none (by simpa using hi), List.getElem?_eq_none (by simpa using hi)]

/-- As many documents in a row as there are values. -/
theorem take_rotate (made : V → D) {g : ValuesGenerator V} (hne : g.values ≠ []) (hitr : 0 ≤ g.itr)
    (hstop : g.itr + g.values.length ≤ g.stop) {fuel : ℕ} (hfuel : g.itr + g.values.length ≤ fuel) :
    ∃ docs, take (next made fuel) g.values.length g = some (docs, { g with itr := g.itr + g.values.length }) ∧
      docs.map Prod.fst = (List.range g.values.length).map (fun i : ℕ => g.name ++ intText (g.itr + i)) ∧
      docs.map Prod.snd = (g.values.rotate ((g.itr - 1) % g.values.length).toNat).map made := by
  obtain ⟨docs, hdocs, hkeys, hvalues⟩ := take_eq made hne hitr hstop hfuel
  refine ⟨docs, hdocs, hkeys, List.map_injective_iff.2 (Option.some_injective D) ?_⟩
  have hmapped := congrArg (List.map (Option.map made)) (map_cyclic hne g.itr)
  rw [List.map_map, List.map_map] at hmapped
  rw [List.map_map, List.map_map, hvalues]
  exact hmapped

/-- **The values go round**: at any number the index loop ends and the document has the value with that number, counted
    from one and around. As many documents in a row as there are values have all of them, in the order of the list from
    some place in it on. -/
theorem next_cyclic (dumps : V → Text) {g : ValuesGenerator V} (hne : g.values ≠ []) (hitr : 0 ≤ g.itr) :
    (g.itr < g.stop → ∃ value, cyclic g.values g.itr = some value ∧ ∀ fuel : ℕ, g.itr < fuel →
      indexLoop g.values.length fuel g.itr ≠ none ∧
      jsonNonDocNext dumps fuel g = .returned (g.name ++ intText g.itr, dumps value) { g with itr := g.itr + 1 } ∧
      base64Next fuel g = .returned (g.name ++ intText g.itr, value) { g with itr := g.itr + 1 }) ∧
    (g.itr + g.values.length ≤ g.stop → ∀ fuel : ℕ, g.itr + g.values.length ≤ fuel →
      let keys := (List.range g.values.length).map fun i : ℕ => g.name ++ intText (g.itr + i)
      let values := g.values.rotate ((g.itr - 1) % g.values.length).toNat
      let after := { g with itr := g.itr + g.values.length }
      (∃ docs, take (jsonNonDocNext dumps fuel) g.values.length g = some (docs, after) ∧ docs.map Prod.fst = keys ∧
        docs.map Prod.snd = values.map dumps) ∧
      ∃ docs, take (base64Next fuel) g.values.length g = some (docs, after) ∧ docs.map Prod.fst = keys ∧
        docs.map Prod.snd = values) := by
  refine ⟨?_, ?_⟩
  · intro hstop
    obtain ⟨value, hvalue⟩ := Option.isSome_iff_exists.1 (cyclic_isSome hne g.itr)
    refine ⟨value, hvalue, ?_⟩
    intro fuel hfuel
    obtain ⟨dumped, hdumped, hjson⟩ := next_eq dumps hne hitr hstop hfuel
    obtain ⟨plain, hplain, hbase64⟩ := next_eq id hne hitr hstop hfuel
    obtain rfl : value = dumped := Option.some_inj.1 (hvalue.symm.trans hdumped)
    obtain rfl : value = plain := Option.some_inj.1 (hvalue.symm.trans hplain)
    refine ⟨?_, hjson, hbase64⟩
    rw [indexLoop_eq (List.length_pos_of_ne_nil hne) hitr hfuel]
    exact Option.some_ne_none _
  · intro hstop fuel hfuel keys values after
    refine ⟨take_rotate dumps hne hitr hstop hfuel, ?_⟩
    have hbase64 := take_rotate id hne hitr hstop hfuel
    rw [List.map_id] at hbase64
    exact hbase64

/-- The second value is the next. -/
theorem next_cyclic_second :
    (take (base64Next 4) 2 ⟨"title-".toList, ["a".toList, "b".toList], 0, 5, 2⟩).map
      (fun out => out.1.map Prod.snd) = some ["b".toList, "a".toList] := by
  obtain ⟨-, hrun⟩ := next_cyclic (fun text => text) (g := ⟨"title-".toList, ["a".toList, "b".toList], 0, 5, 2⟩)
    (by decide) (by decide)
  obtain ⟨-, docs, hdocs, -, hvalues⟩ := hrun (by decide) 4 (by decide)
  have htake : take (base64Next 4) 2 ⟨"title-".toList, ["a".toList, "b".toList], 0, 5, 2⟩ = _ := hdocs
  rw [htake, Option.map_some, hvalues]
  rfl

end ValuesGenerator

end TestInfra
