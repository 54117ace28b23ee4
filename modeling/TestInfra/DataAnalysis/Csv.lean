import TestInfra.Lib.Dict
import TestInfra.Lib.FirstBest
import TestInfra.Lib.PyInt
import Mathlib.Data.Int.Order.Basic

set_option autoImplicit false

/-! # Rows of `cbtransfer` by their keys

`translateDataFromCSVToMap` keeps one row for each key, and exchanges it for a row with a higher revision id. What is
kept is the text of the row. Its revision id is then looked for at the place of the column, but in the text: there
stands the sixth character. -/

open PyText

namespace DataCollector

/-! ## The rows -/

/-- `value.split(",")`. -/
def columns (value : Text) : List Text := value.splitOn ','

def revIdIndex : ℕ := 5

/-- `int.from_bytes(bytes, "big")`. -/
def fromBytes (bytes : List UInt8) : ℕ := bytes.foldl (fun n byte => 256 * n + byte.toNat) 0

/-- `int.from_bytes(str.encode(text[2:-1]), "big")`. -/
def bytesValue (text : Text) : ℤ := fromBytes ((text.dropLast.drop 2).flatMap String.utf8EncodeChar)

/-- `int(value[5])` for a text: its sixth character. -/
def sixthDigit (value : Text) : Option ℤ := value[revIdIndex]?.bind fun c => readInt [c]

/-- `prev_revId` and `new_revId`, for the row that is stored and the column of the new one. -/
def revIds (stored revId : Text) : Option (ℤ × ℤ) :=
  if isdigit revId then do return (← sixthDigit stored, ← readInt revId)
  else do return (bytesValue (← (columns stored)[revIdIndex]?), bytesValue revId)

/-- One turn of the loop; `none` when it raises. -/
def readRow (index : ℕ) (bucketMap : Dict Text Text) (value : Text) : Option (Dict Text Text) :=
  if columns value = ["\n".toList] then some bucketMap
  else do
    let key ← (columns value)[index]?
    match bucketMap.get? key with
    | none => return bucketMap.set key value
    | some stored =>
        let (prevRevId, newRevId) ← revIds stored (← (columns value)[revIdIndex]?)
        return if prevRevId < newRevId then bucketMap.set key value else bucketMap

def translateDataFromCSVToMap (index : ℕ) (dataInCSV : List Text) : Option (Dict Text Text) :=
  dataInCSV.foldlM (readRow index) ∅

/-! ## Rows with a revision id -/

/-- The row has a key, and a decimal revision id in column 5. -/
structure Revised (index : ℕ) (value : Text) : Prop where
  key : index < (columns value).length
  revId : ∃ text, (columns value)[revIdIndex]? = some text ∧ Decimal text

variable {index : ℕ} {value stored : Text}

/-- The key of a row. -/
def keyOf (index : ℕ) (value : Text) : Text := ((columns value)[index]?).getD []

/-- The revision id of a row. -/
def revIdOf (value : Text) : ℤ := ((columns value)[revIdIndex]?.bind readInt).getD 0

/-- What is taken for the revision id of a row that is stored. -/
def seenRevId (value : Text) : ℤ := (sixthDigit value).getD 0

theorem Revised.keyOf_eq (h : Revised index value) : (columns value)[index]? = some (keyOf index value) := by
  simp [keyOf, h.key]

theorem Revised.columns_ne (h : Revised index value) : columns value ≠ ["\n".toList] := by
  obtain ⟨text, htext, -⟩ := h.revId
  intro heq
  simp [heq, revIdIndex] at htext

/-- A row of revision ids is compared with the sixth character of the one that is stored. -/
theorem Revised.revIds_eq (h : Revised index value) :
    (columns value)[revIdIndex]?.bind (revIds stored)
      = (sixthDigit stored).map fun prevRevId => (prevRevId, revIdOf value) := by
  obtain ⟨text, htext, hdecimal⟩ := h.revId
  obtain ⟨n, hn⟩ := exists_readInt hdecimal
  have hrev : revIdOf value = n := by simp [revIdOf, htext, hn]
  rw [htext, Option.bind_some, revIds, if_pos (isdigit_of_decimal hdecimal), hn, hrev]
  cases sixthDigit stored <;> rfl

theorem readRow_of_none {bucketMap : Dict Text Text} (h : Revised index value)
    (hnone : bucketMap.get? (keyOf index value) = none) :
    readRow index bucketMap value = some (bucketMap.set (keyOf index value) value) := by
  unfold readRow
  rw [if_neg h.columns_ne, h.keyOf_eq]
  simp [hnone]

theorem readRow_of_some {bucketMap : Dict Text Text} (h : Revised index value)
    (hstored : bucketMap.get? (keyOf index value) = some stored) :
    readRow index bucketMap value = (sixthDigit stored).map fun prevRevId =>
      if prevRevId < revIdOf value then bucketMap.set (keyOf index value) value else bucketMap := by
  obtain ⟨text, htext, -⟩ := h.revId
  have hrevIds : (columns value)[revIdIndex]?.bind (revIds stored) = _ := h.revIds_eq
  rw [htext, Option.bind_some] at hrevIds
  unfold readRow
  rw [if_neg h.columns_ne, h.keyOf_eq]
  simp only [Option.bind_eq_bind, Option.bind_some, hstored, htext, hrevIds]
  cases sixthDigit stored <;> rfl

/-! ## The rows of one key -/

/-- The rows with a key. -/
def rowsOf (index : ℕ) (key : Text) (rows : List Text) : List Text := rows.filter fun row => keyOf index row = key

/-- The row at hand for a key when some rows have been read. -/
def held (index : ℕ) (key : Text) (rows : List Text) : Option Text :=
  FirstBest.kept revIdOf seenRevId (rowsOf index key rows)

/-- Whenever a row is read while one with its key is stored, the sixth character of that one is a digit. -/
def ReadsDigits (index : ℕ) (rows : List Text) : Prop :=
  ∀ before row after stored, rows = before ++ row :: after → held index (keyOf index row) before = some stored →
    (sixthDigit stored).isSome = true

theorem held_concat (key : Text) (rows : List Text) (row : Text) :
    held index key (rows ++ [row])
      = if keyOf index row = key then FirstBest.keep revIdOf seenRevId (held index key rows) row
        else held index key rows := by
  unfold held rowsOf
  rw [List.filter_append]
  split
  · next hkey => rw [List.filter_cons_of_pos (by simpa using hkey), List.filter_nil, FirstBest.kept_concat]
  · next hkey => rw [List.filter_cons_of_neg (by simpa using hkey), List.filter_nil, List.append_nil]

/-- Storing a row that is kept for its key keeps the rows at hand. -/
theorem get?_set_held {before : List Text} {bucketMap : Dict Text Text}
    (hheld : ∀ key, bucketMap.get? key = held index key before)
    (hkeep : FirstBest.keep revIdOf seenRevId (held index (keyOf index value) before) value = some value)
    (key : Text) : (bucketMap.set (keyOf index value) value).get? key = held index key (before ++ [value]) := by
  rw [Dict.get?_set, held_concat]
  by_cases hkey : key = keyOf index value
  · rw [if_pos hkey, if_pos hkey.symm, hkey, hkeep]
  · rw [if_neg hkey, if_neg (Ne.symm hkey), hheld]

/-- One turn of the loop, with the rows at hand stored. -/
theorem readRow_held {before : List Text} {bucketMap : Dict Text Text} (h : Revised index value)
    (hheld : ∀ key, bucketMap.get? key = held index key before) :
    (∀ stored, held index (keyOf index value) before = some stored → (sixthDigit stored).isSome = true) ∧
        (∃ bucketMap', readRow index bucketMap value = some bucketMap' ∧
          ∀ key, bucketMap'.get? key = held index key (before ++ [value])) ∨
      (∃ stored, held index (keyOf index value) before = some stored ∧ ¬ (sixthDigit stored).isSome = true) ∧
        readRow index bucketMap value = none := by
  cases hstored : held index (keyOf index value) before with
  | none =>
      refine .inl ⟨by simp, _, readRow_of_none h ((hheld _).trans hstored), get?_set_held hheld ?_⟩
      rw [hstored]
      rfl
  | some stored =>
      have hrow := readRow_of_some h ((hheld _).trans hstored)
      cases hdigit : sixthDigit stored with
      | none =>
          rw [hdigit] at hrow
          exact .inr ⟨⟨stored, rfl, by simp [hdigit]⟩, hrow⟩
      | some prevRevId =>
          rw [hdigit, Option.map_some] at hrow
          refine .inl ⟨by rintro _ ⟨⟩; simp [hdigit], _, hrow, ?_⟩
          have hseen : seenRevId stored = prevRevId := by simp [seenRevId, hdigit]
          by_cases hlt : prevRevId < revIdOf value
          · rw [if_pos hlt]
            refine get?_set_held hheld ?_
            rw [hstored, FirstBest.keep, hseen, if_pos hlt]
          · intro key
            rw [if_neg hlt, held_concat, hheld]
            split
            · next hkey => rw [← hkey, hstored, FirstBest.keep, hseen, if_neg hlt]
            · rfl

/-- The loop behind some rows, with the rows at hand stored. -/
theorem foldlM_readRow {rows before : List Text} {bucketMap : Dict Text Text} (hrows : ∀ row ∈ rows, Revised index row)
    (hheld : ∀ key, bucketMap.get? key = held index key before) :
    ((∃ bucketMap', rows.foldlM (readRow index) bucketMap = some bucketMap') ↔
      ∀ middle row after stored, rows = middle ++ row :: after →
        held index (keyOf index row) (before ++ middle) = some stored → (sixthDigit stored).isSome = true) ∧
    ∀ bucketMap', rows.foldlM (readRow index) bucketMap = some bucketMap' →
      ∀ key, bucketMap'.get? key = held index key (before ++ rows) := by
  induction rows generalizing before bucketMap with
  | nil =>
      refine ⟨⟨by simp, fun _ => ⟨bucketMap, rfl⟩⟩, ?_⟩
      rintro _ ⟨⟩ key
      rw [List.append_nil, hheld]
  | cons row rows ih =>
      rw [List.forall_mem_cons] at hrows
      rw [List.foldlM_cons]
      rcases readRow_held hrows.1 hheld with ⟨hdigits, next, hnext, hheld'⟩ | ⟨⟨stored, hstored, hdigit⟩, hnext⟩
      · rw [hnext]
        obtain ⟨hiff, hget⟩ := ih hrows.2 hheld'
        rw [← List.append_cons] at hget
        refine ⟨hiff.trans ⟨?_, ?_⟩, hget⟩
        · rintro h (_ | ⟨first, middle⟩) row' after stored heq hstored
          · obtain ⟨rfl, -⟩ := List.cons.inj heq
            exact hdigits stored (by simpa using hstored)
          · obtain ⟨rfl, hrest⟩ := List.cons.inj heq
            exact h middle row' after stored hrest (by simpa using hstored)
        · intro h middle row' after stored heq hstored
          exact h (row :: middle) row' after stored (by simp [heq]) (by simpa using hstored)
      · rw [hnext]
        refine ⟨⟨by simp, fun h => absurd (h [] row rows stored rfl (by simpa using hstored)) hdigit⟩, by simp⟩

/-- The map, when it is returned, has the rows at hand when all have been read. -/
theorem translate_spec {rows : List Text} (hrows : ∀ row ∈ rows, Revised index row) :
    ((∃ bucketMap, translateDataFromCSVToMap index rows = some bucketMap) ↔ ReadsDigits index rows) ∧
    ∀ bucketMap, translateDataFromCSVToMap index rows = some bucketMap →
      ∀ key, bucketMap.get? key = held index key rows :=
  @foldlM_readRow index rows [] ∅ hrows fun _ => rfl

/-! ## The newest rows -/

/-- The row is the first of those with the highest revision id of its key. -/
def IsNewest (index : ℕ) (rows : List Text) (key row : Text) : Prop :=
  FirstBest.IsFirstBest revIdOf (rowsOf index key rows) row

/-- The newest row of each key comes to be stored and stays: once when it is read no row with its key is stored, or
    one whose sixth character is below its revision id; and no row with its key that comes later has a revision id
    above its own sixth character. -/
def KeepsNewest (index : ℕ) (rows : List Text) : Prop :=
  ∀ key newest, IsNewest index rows key newest → ∃ before after, rowsOf index key rows = before ++ newest :: after ∧
    (∀ stored ∈ FirstBest.kept revIdOf seenRevId before, seenRevId stored < revIdOf newest) ∧
    ∀ row ∈ after, revIdOf row ≤ seenRevId newest

/-- **The rows stored are the newest ones exactly when the sixth characters say so.** -/
theorem translateDataFromCSVToMap_newest_iff (index : ℕ) (rows : List Text)
    (hrows : ∀ row ∈ rows, Revised index row) :
    (∃ bucketMap, translateDataFromCSVToMap index rows = some bucketMap ∧
      ∀ key row, bucketMap.get? key = some row ↔ IsNewest index rows key row) ↔
      ReadsDigits index rows ∧ KeepsNewest index rows := by
  obtain ⟨hreturns, hget⟩ := translate_spec hrows
  rw [← hreturns, ← exists_and_right]
  refine exists_congr fun bucketMap => and_congr_right fun hok => ?_
  simp only [hget bucketMap hok, held]
  constructor
  · intro h key newest hnewest
    exact FirstBest.kept_eq_some_iff.1 ((h key newest).2 hnewest)
  · intro h key row
    have hkept : ∀ newest, IsNewest index rows key newest →
        FirstBest.kept revIdOf seenRevId (rowsOf index key rows) = some newest :=
      fun newest hnewest => FirstBest.kept_eq_some_iff.2 (h key newest hnewest)
    refine ⟨fun hrow => ?_, hkept row⟩
    -- where a row is kept there is a newest one, and that is the row
    have hne : rowsOf index key rows ≠ [] := List.ne_nil_of_mem (FirstBest.mem_of_kept hrow)
    obtain ⟨newest, hnewest⟩ := FirstBest.exists_kept revIdOf revIdOf hne
    have hnewest : IsNewest index rows key newest := FirstBest.kept_rank_eq_some_iff.1 hnewest
    rw [hkept newest hnewest, Option.some.injEq] at hrow
    rwa [← hrow]

/-- Two rows of one key, whose sixth characters are their revision ids. -/
def twoRows : List Text := ["key,,1,0,0,1".toList, "key,,2,0,0,2".toList]

/-- The second one takes the place of the first. -/
theorem newest_of_two :
    ∃ bucketMap, translateDataFromCSVToMap 0 twoRows = some bucketMap ∧
      ∀ key row, bucketMap.get? key = some row ↔ IsNewest 0 twoRows key row := by
  have hrevised : ∀ row ∈ twoRows, Revised 0 row := by
    rw [twoRows, List.forall_mem_cons, List.forall_mem_singleton]
    exact ⟨⟨by decide, "1".toList, rfl, by decide⟩, by decide, "2".toList, rfl, by decide⟩
  refine (translateDataFromCSVToMap_newest_iff 0 twoRows hrevised).2 ⟨?_, ?_⟩
  · intro before row after stored heq hstored
    have hdigits : ∀ row ∈ twoRows, (sixthDigit row).isSome = true := by decide
    have hmem := List.mem_of_mem_filter (FirstBest.mem_of_kept hstored)
    exact hdigits stored (heq ▸ List.mem_append_left _ hmem)
  · intro key newest hnewest
    by_cases hkey : key = "key".toList
    · subst hkey
      have hlast : FirstBest.kept revIdOf revIdOf (rowsOf 0 "key".toList twoRows) = some "key,,2,0,0,2".toList := by
        decide
      have hkept := FirstBest.kept_rank_eq_some_iff.2 hnewest
      obtain rfl := Option.some.inj (hlast.symm.trans hkept)
      exact ⟨["key,,1,0,0,1".toList], [], by decide, by decide, by simp⟩
    · -- no row has another key
      have hother : ∀ row ∈ twoRows, keyOf 0 row = "key".toList := by decide
      have hnone : rowsOf 0 key twoRows = [] :=
        List.filter_eq_nil_iff.2 fun row hrow => by simpa [hother row hrow] using Ne.symm hkey
      obtain ⟨before, after, heq, -⟩ := hnewest
      rw [hnone] at heq
      exact absurd heq (by simp)

/-- Behind a key of one letter there is no digit where one is looked for. -/
theorem raises_for_short_key :
    (∀ row ∈ ["k,0,0,0,0,1".toList, "k,0,0,0,0,2".toList], Revised 0 row) ∧
      translateDataFromCSVToMap 0 ["k,0,0,0,0,1".toList, "k,0,0,0,0,2".toList] = none := by
  refine ⟨?_, by decide⟩
  rintro row (_ | ⟨_, _ | ⟨_, ⟨⟩⟩⟩)
  · exact ⟨by decide, "1".toList, rfl, by decide⟩
  · exact ⟨by decide, "2".toList, rfl, by decide⟩

end DataCollector
