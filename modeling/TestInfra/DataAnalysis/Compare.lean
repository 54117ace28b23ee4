import TestInfra.Lib.Dict
import TestInfra.Lib.PyInt
import Mathlib.Data.List.Infix
import Mathlib.Data.List.Perm.Subperm

set_option autoImplicit false

/-! # Two data sets compared

`compare_maps` compares entries of named statistics, `compare_data_maps` lines of comma separated columns. Both list
the keys of only one of the data sets and the common keys whose entries differ; a comparison map gives rules for
fields that need not be equal. A line's rule is looked up under a character of the header, not under the field. -/

open PyText

namespace DataAnalyzer

/-! ## Values -/

inductive Order where
  | ge
  | le
  | gt
  | lt

/-- What the interpreter does with the values of the data sets; `none` where it raises. -/
structure Builtins (V : Type) where
  str : Text → V
  none : V
  int : V → Option V
  float : V → Option V
  eq : V → V → Bool
  order : Order → V → V → Option Bool
  /-- `"{0}".format(value)` -/
  format : V → Text
  /-- `"{0}".format(texts)`, for a list -/
  formatTexts : List Text → Text

/-- An entry of a comparison map. -/
structure Rule where
  type : Text
  operation : Text

abbrev ComparisonMap := Dict Text Rule

section Values

variable {V : Type} (py : Builtins V)

/-- `convert_value`. -/
def convertValue (val : V) (type : Text) : Option V :=
  if py.eq val py.none then some (py.str [])
  else if type = "int".toList then py.int val
  else if type = "long".toList then py.int val
  else if type = "float".toList then py.float val
  else if type = "string".toList then some val
  else some py.none

/-- Whether the operation holds; an operation that is not known does not. -/
def holds (operation : Text) (val1 val2 : V) : Option Bool :=
  if operation = ">=".toList then py.order .ge val1 val2
  else if operation = "<=".toList then py.order .le val1 val2
  else if operation = ">".toList then py.order .gt val1 val2
  else if operation = "<".toList then py.order .lt val1 val2
  else if operation = "==".toList then some (py.eq val1 val2)
  else if operation = "!=".toList then some (!py.eq val1 val2)
  else some false

/-- `compare_values`, with what it puts under the key into `reason`. -/
def compareValues (val1 val2 : V) (logic : Rule) : Option (Option Text) := do
  let val1 ← convertValue py val1 logic.type
  let val2 ← convertValue py val2 logic.type
  if logic.operation = "filter".toList then return none
  else if ← holds py logic.operation val1 val2 then return none
  else return some ("Condition Fail:: ".toList ++ py.format val1 ++ " ".toList ++ logic.operation ++ " ".toList
    ++ py.format val2)

/-- `"Expected {0} :: Actual {1}"`. -/
def expectedText (val1 val2 : V) : Text :=
  "Expected ".toList ++ py.format val1 ++ " :: Actual ".toList ++ py.format val2

end Values

/-! ## Loops that fill a dictionary -/

section Collect

variable {ι ω : Type}

/-- What is put into the dictionary for an item of the loop, if something is. -/
def putFound (reason : Dict Text ω) : Option (Text × ω) → Dict Text ω
  | none => reason
  | some (key, value) => reason.set key value

/-- The dictionary after a loop; `check` is `none` where the item makes the loop raise. -/
def collect (check : ι → Option (Option (Text × ω))) (items : List ι) : Option (Dict Text ω) :=
  items.foldlM (fun reason item => (check item).map (putFound reason)) ∅

end Collect

/-! ## The comparison of two data sets -/

structure Comparison where
  deletedItems : List Text
  addedItems : List Text
  updatedItems : Dict Text (Dict Text Text)

/-- `logicalResult`. -/
def Comparison.logicalResult (r : Comparison) : Bool × Bool × Bool :=
  (0 < r.deletedItems.length, 0 < r.addedItems.length, 0 < r.updatedItems.items.length)

section Keys

variable {ε : Type} (compareEntries : ε → ε → Option (Dict Text Text))

/-- The turn of the loop for a common key. -/
def checkKey (info1 info2 : Dict Text ε) (key : Text) : Option (Option (Text × Dict Text Text)) := do
  let reason ← compareEntries (← info1.get? key) (← info2.get? key)
  return if 0 < reason.items.length then some (key, reason) else none

/-- What the two comparisons have in common. The order of a Python set is any; here it is that of the first data set
    (of the second for the items added). -/
def compareInfos (info1 info2 : Dict Text ε) : Option Comparison := do
  let updated ← collect (checkKey compareEntries info1 info2) (info1.keys.filter fun key => key ∈ info2.keys)
  return { deletedItems := info1.keys.filter fun key => key ∉ info2.keys,
           addedItems := info2.keys.filter fun key => key ∉ info1.keys,
           updatedItems := updated }

end Keys

/-- What goes wrong with a field, and what for. -/
abbrev Found := Option (Text × Text)

section Functions

variable {V : Type} (py : Builtins V)

/-- `compare_values` for the field with a rule, and `!=` without one. -/
def compareField (val1 val2 : V) : Option Rule → Option (Option Text)
  | some logic => compareValues py val1 val2 logic
  | none => some (if py.eq val1 val2 then none else some (expectedText py val1 val2))

/-- The turn of the loop of `compare_maps` for a statistic. -/
def checkStat (comparisonMap : Option ComparisonMap) (data1 data2 : Dict Text V) (vkey : Text) : Option Found := do
  let found ← compareField py (← data1.get? vkey) (← data2.get? vkey) (comparisonMap.bind (·.get? vkey))
  return found.map fun text => (vkey, text)

/-- The entries of a common key in `compare_maps`. -/
def compareStats (comparisonMap : Option ComparisonMap) (data1 data2 : Dict Text V) : Option (Dict Text Text) :=
  if data1.keys.length = data2.keys.length then collect (checkStat py comparisonMap data1 data2) data1.keys
  else some ((∅ : Dict Text Text).set "number of key mismatch".toList
    ("Key Mismatch :: Expected keys ".toList ++ py.formatTexts data1.keys ++ " \n Actual keys ".toList
      ++ py.formatTexts data2.keys))

/-- `compare_maps`. -/
def compareMaps (info1 info2 : Dict Text (Dict Text V)) (comparisonMap : Option ComparisonMap) : Option Comparison :=
  compareInfos (compareStats py comparisonMap) info1 info2

/-- The rule of a column, under `headerInfo[i]`: a character of the header. -/
def columnRule (headerInfo : Text) (comparisonMap : Option ComparisonMap) (i : ℕ) : Option (Option Rule) :=
  match comparisonMap with
  | none => some none
  | some comparisonMap => (headerInfo[i]?).map fun c => comparisonMap.get? [c]

/-- `int(value.rstrip()) in data_type`. -/
def isDataType (value : Text) : Option Bool :=
  (readInt (rstrip isSpace value)).map fun n => decide (n ∈ [0, 1, 2, 3, 4])

/-- What is found of a column without a rule that differs. In an upgrade test all data types are alike. -/
def columnDiffers (upgradeTest : Bool) (field value1 value2 : Text) : Option Found :=
  if upgradeTest ∧ "dtype".toList <:+: field then do
    if ← (do if ← isDataType value1 then isDataType value2 else return false) then return none
    else return some (field, "Incorrect data type. Expected ".toList ++ value1 ++ " :: Actual ".toList ++ value2)
  else some (some (field, "Expected ".toList ++ value1 ++ " :: Actual ".toList ++ value2))

/-- The turn of the loop of `compare_data_maps` for a column. -/
def checkColumn (upgradeTest : Bool) (headerInfo : Text) (comparisonMap : Option ComparisonMap)
    (data1 data2 : List Text) (i : ℕ) : Option Found := do
  let fields := headerInfo.splitOn ','
  let value1 ← data1[i]?
  let value2 ← data2[i]?
  match ← columnRule headerInfo comparisonMap i with
  | some logic =>
      let field ← fields[i]?
      let found ← compareValues py (py.str value1) (py.str value2) logic
      return found.map fun text => (field, text)
  | none => if value1 = value2 then return none else columnDiffers upgradeTest (← fields[i]?) value1 value2

/-- The lines of a common key in `compare_data_maps`. -/
def compareLines (upgradeTest : Bool) (headerInfo : Text) (comparisonMap : Option ComparisonMap) (line1 line2 : Text) :
    Option (Dict Text Text) :=
  let data1 := line1.splitOn ','
  let data2 := line2.splitOn ','
  if data1.length = data2.length then
    collect (checkColumn py upgradeTest headerInfo comparisonMap data1 data2) (List.range data1.length)
  else some ((∅ : Dict Text Text).set "number of value mismatch".toList
    ("Number of values mismatch :: Expected values ".toList ++ py.formatTexts data1 ++ " \n Actual values ".toList
      ++ py.formatTexts data2))

/-- `compare_data_maps`. -/
def compareDataMaps (info1 info2 : Dict Text Text) (headerInfo : Text) (comparisonMap : Option ComparisonMap)
    (upgradeTest : Bool) : Option Comparison :=
  compareInfos (compareLines py upgradeTest headerInfo comparisonMap) info1 info2

end Functions

/-! ## What the loops find -/

section Collect

variable {ι ω : Type}

/-- The loop goes through when no item makes it raise, and then has the keys put for the items. -/
theorem foldlM_putFound (check : ι → Option (Option (Text × ω))) (items : List ι) (start : Dict Text ω) :
    ((∃ reason, items.foldlM (fun reason item => (check item).map (putFound reason)) start = some reason) ↔
      ∀ item ∈ items, (check item).isSome = true) ∧
    ∀ reason, items.foldlM (fun reason item => (check item).map (putFound reason)) start = some reason →
      ∀ key, key ∈ reason.keys ↔ key ∈ start.keys ∨ ∃ item ∈ items, ∃ value, check item = some (some (key, value)) := by
  induction items generalizing start with
  | nil => simp
  | cons item items ih =>
      rw [List.foldlM_cons, List.forall_mem_cons]
      cases hcheck : check item with
      | none => simp
      | some found =>
          obtain ⟨hiff, hkeys⟩ := ih (putFound start found)
          refine ⟨by simpa using hiff, fun reason hreason key => (hkeys reason hreason key).trans ?_⟩
          cases found with
          | none => simp [putFound, hcheck]
          | some found =>
              obtain ⟨key', value⟩ := found
              simp [putFound, hcheck, or_assoc, or_left_comm, eq_comm]

theorem collect_spec (check : ι → Option (Option (Text × ω))) (items : List ι) :
    ((∃ reason, collect check items = some reason) ↔ ∀ item ∈ items, (check item).isSome = true) ∧
    ∀ reason, collect check items = some reason →
      ∀ key, key ∈ reason.keys ↔ ∃ item ∈ items, ∃ value, check item = some (some (key, value)) := by
  obtain ⟨hiff, hkeys⟩ := foldlM_putFound check items ∅
  exact ⟨hiff, fun reason hreason key => (hkeys reason hreason key).trans (by simp)⟩

theorem length_items_pos_iff {reason : Dict Text ω} : 0 < reason.items.length ↔ ∃ key, key ∈ reason.keys := by
  rw [Dict.items, Dict.keys, ← List.length_map Prod.fst, List.length_pos_iff_exists_mem]

end Collect

section Keys

variable {ε : Type} {compareEntries : ε → ε → Option (Dict Text Text)} {info1 info2 : Dict Text ε}

/-- The comparison is returned; it lists the keys of only one of the data sets, and of the common keys those whose
    entries differ. -/
def Right (info1 info2 : Dict Text ε) (Differ : ε → ε → Prop) (res : Option Comparison) : Prop :=
  ∃ r, res = some r ∧ (∀ key, key ∈ r.deletedItems ↔ key ∈ info1.keys ∧ key ∉ info2.keys) ∧
    (∀ key, key ∈ r.addedItems ↔ key ∈ info2.keys ∧ key ∉ info1.keys) ∧
    ∀ key entry1 entry2, info1.get? key = some entry1 → info2.get? key = some entry2 →
      (key ∈ r.updatedItems.keys ↔ Differ entry1 entry2)

theorem checkKey_eq {key : Text} {entry1 entry2 : ε} (h1 : info1.get? key = some entry1)
    (h2 : info2.get? key = some entry2) :
    checkKey compareEntries info1 info2 key = (compareEntries entry1 entry2).map fun reason =>
      if 0 < reason.items.length then some (key, reason) else none := by
  simp only [checkKey, h1, h2, Option.bind_eq_bind, Option.bind_some]
  cases compareEntries entry1 entry2 <;> rfl

theorem mem_common_iff {key : Text} :
    key ∈ (info1.keys.filter fun key => key ∈ info2.keys) ↔
      ∃ entry1 entry2, info1.get? key = some entry1 ∧ info2.get? key = some entry2 := by
  simp [Dict.mem_keys_iff_exists]

/-- What is put for an item is put under the item. -/
theorem key_eq_of_checkKey {item key : Text} (hitem : item ∈ info1.keys.filter fun key => key ∈ info2.keys)
    {value : Dict Text Text} (hfound : checkKey compareEntries info1 info2 item = some (some (key, value))) :
    item = key := by
  obtain ⟨e1, e2, he1, he2⟩ := mem_common_iff.1 hitem
  rw [checkKey_eq he1 he2] at hfound
  cases hentries : compareEntries e1 e2 with
  | none => simp [hentries] at hfound
  | some reason =>
      rw [hentries, Option.map_some, Option.some.injEq] at hfound
      split at hfound
      · simp at hfound
        exact hfound.1
      · cases hfound

/-- Only common keys are put. -/
theorem mem_common_of_updated {updated : Dict Text (Dict Text Text)}
    (hok : collect (checkKey compareEntries info1 info2) (info1.keys.filter fun key => key ∈ info2.keys) = some updated)
    {key : Text} (hkey : key ∈ updated.keys) :
    ∃ entry1 entry2, info1.get? key = some entry1 ∧ info2.get? key = some entry2 := by
  obtain ⟨item, hitem, value, hfound⟩ := ((collect_spec _ _).2 updated hok key).1 hkey
  obtain rfl := key_eq_of_checkKey hitem hfound
  exact mem_common_iff.1 hitem

/-- A common key is put when something has been found about its entries. -/
theorem mem_updated_iff {updated : Dict Text (Dict Text Text)}
    (hok : collect (checkKey compareEntries info1 info2) (info1.keys.filter fun key => key ∈ info2.keys) = some updated)
    {key : Text} {entry1 entry2 : ε} (h1 : info1.get? key = some entry1) (h2 : info2.get? key = some entry2)
    {reason : Dict Text Text} (hreason : compareEntries entry1 entry2 = some reason) :
    key ∈ updated.keys ↔ 0 < reason.items.length := by
  have hcheck : checkKey compareEntries info1 info2 key = _ := checkKey_eq h1 h2
  rw [hreason, Option.map_some] at hcheck
  rw [(collect_spec _ _).2 updated hok]
  constructor
  · rintro ⟨item, hitem, value, hfound⟩
    obtain rfl := key_eq_of_checkKey hitem hfound
    rw [hcheck, Option.some.injEq] at hfound
    by_contra hnot
    rw [if_neg hnot] at hfound
    cases hfound
  · intro hpos
    rw [if_pos hpos] at hcheck
    exact ⟨key, mem_common_iff.2 ⟨entry1, entry2, h1, h2⟩, reason, hcheck⟩

/-- The comparison of two data sets is as good as the comparisons of the entries of their common keys. -/
theorem compareInfos_right_iff {Differ : ε → ε → Prop} :
    Right info1 info2 Differ (compareInfos compareEntries info1 info2) ↔
      ∀ key entry1 entry2, info1.get? key = some entry1 → info2.get? key = some entry2 →
        ∃ reason, compareEntries entry1 entry2 = some reason ∧ (0 < reason.items.length ↔ Differ entry1 entry2) := by
  obtain ⟨hreturns, -⟩ := collect_spec (checkKey compareEntries info1 info2)
    (info1.keys.filter fun key => key ∈ info2.keys)
  unfold Right compareInfos
  constructor
  · rintro ⟨r, hr, -, -, hupdated⟩ key entry1 entry2 h1 h2
    obtain ⟨updated, hok, hr⟩ := Option.bind_eq_some_iff.1 hr
    obtain rfl := Option.some.inj hr
    have hsome := hreturns.1 ⟨updated, hok⟩ key (mem_common_iff.2 ⟨entry1, entry2, h1, h2⟩)
    rw [checkKey_eq h1 h2, Option.isSome_map] at hsome
    obtain ⟨reason, hreason⟩ := Option.isSome_iff_exists.1 hsome
    exact ⟨reason, hreason, (mem_updated_iff hok h1 h2 hreason).symm.trans (hupdated key entry1 entry2 h1 h2)⟩
  · intro h
    obtain ⟨updated, hok⟩ := hreturns.2 (by
      intro key hkey
      obtain ⟨entry1, entry2, h1, h2⟩ := mem_common_iff.1 hkey
      obtain ⟨reason, hreason, -⟩ := h key entry1 entry2 h1 h2
      rw [checkKey_eq h1 h2, hreason]
      rfl)
    refine ⟨_, Option.bind_eq_some_iff.2 ⟨updated, hok, rfl⟩, by simp, by simp, ?_⟩
    intro key entry1 entry2 h1 h2
    obtain ⟨reason, hreason, hiff⟩ := h key entry1 entry2 h1 h2
    exact (mem_updated_iff hok h1 h2 hreason).trans hiff

/-- **The logical result** of a comparison that is right: whether only one of the data sets has some key, and whether
    the entries of some common key differ. -/
theorem logicalResult_iff {Differ : ε → ε → Prop} {r : Comparison}
    (hr : compareInfos compareEntries info1 info2 = some r) (hright : Right info1 info2 Differ (some r)) :
    (r.logicalResult.1 = true ↔ ∃ key ∈ info1.keys, key ∉ info2.keys) ∧
    (r.logicalResult.2.1 = true ↔ ∃ key ∈ info2.keys, key ∉ info1.keys) ∧
    (r.logicalResult.2.2 = true ↔ ∃ key entry1 entry2, info1.get? key = some entry1 ∧ info2.get? key = some entry2 ∧
      Differ entry1 entry2) := by
  obtain ⟨r', heq, hdeleted, hadded, hupdated⟩ := hright
  obtain rfl := Option.some.inj heq
  simp only [Comparison.logicalResult, decide_eq_true_iff]
  rw [length_items_pos_iff, List.length_pos_iff_exists_mem, List.length_pos_iff_exists_mem]
  refine ⟨exists_congr hdeleted, exists_congr hadded, exists_congr fun key => ⟨fun hkey => ?_, ?_⟩⟩
  · obtain ⟨updated, hok, hr⟩ := Option.bind_eq_some_iff.1 hr
    obtain rfl := Option.some.inj hr
    obtain ⟨entry1, entry2, h1, h2⟩ := mem_common_of_updated hok hkey
    exact ⟨entry1, entry2, h1, h2, (hupdated key entry1 entry2 h1 h2).1 hkey⟩
  · rintro ⟨entry1, entry2, h1, h2, hdiffer⟩
    exact (hupdated key entry1 entry2 h1 h2).2 hdiffer

end Keys

/-! ## Entries of statistics -/

section Stats

variable {V : Type} (py : Builtins V)

/-- The field fails its rule; without a rule, the values differ. -/
def FieldFails (val1 val2 : V) (logic : Option Rule) : Prop :=
  ∃ text, compareField py val1 val2 logic = some (some text)

/-- The entries have different fields, or a field fails. -/
def StatsDiffer (comparisonMap : Option ComparisonMap) (data1 data2 : Dict Text V) : Prop :=
  (¬ ∀ vkey, vkey ∈ data1.keys ↔ vkey ∈ data2.keys) ∨
    ∃ vkey val1 val2, data1.get? vkey = some val1 ∧ data2.get? vkey = some val2 ∧
      FieldFails py val1 val2 (comparisonMap.bind (·.get? vkey))

/-- Entries with as many fields have the same ones, and every rule can be applied to its field. -/
def StatsComparable (comparisonMap : Option ComparisonMap) (data1 data2 : Dict Text V) : Prop :=
  data1.keys.length = data2.keys.length →
    (∀ vkey, vkey ∈ data1.keys ↔ vkey ∈ data2.keys) ∧
    ∀ vkey val1 val2, data1.get? vkey = some val1 → data2.get? vkey = some val2 →
      (compareField py val1 val2 (comparisonMap.bind (·.get? vkey))).isSome = true

section Keys

variable {data1 data2 : Dict Text V}

/-- Entries with the same fields have as many. -/
theorem length_keys_eq (h : ∀ vkey, vkey ∈ data1.keys ↔ vkey ∈ data2.keys) : data1.keys.length = data2.keys.length :=
  ((List.perm_ext_iff_of_nodup data1.nodup_keys data2.nodup_keys).2 h).length_eq

/-- An entry that has the fields of another one, and as many, has no others. -/
theorem same_keys_of_subset (hlength : data1.keys.length = data2.keys.length)
    (h : ∀ vkey ∈ data1.keys, vkey ∈ data2.keys) (vkey : Text) : vkey ∈ data1.keys ↔ vkey ∈ data2.keys :=
  ((data1.nodup_keys.subperm h).perm_of_length_le (Nat.le_of_eq hlength.symm)).mem_iff

theorem checkStat_eq (comparisonMap : Option ComparisonMap) {vkey : Text} {val1 val2 : V}
    (h1 : data1.get? vkey = some val1) (h2 : data2.get? vkey = some val2) :
    checkStat py comparisonMap data1 data2 vkey
      = (compareField py val1 val2 (comparisonMap.bind (·.get? vkey))).map fun found =>
          found.map fun text => (vkey, text) := by
  simp only [checkStat, h1, h2, Option.bind_eq_bind, Option.bind_some]
  cases compareField py val1 val2 (comparisonMap.bind (·.get? vkey)) <;> rfl

theorem checkStat_isSome_iff (comparisonMap : Option ComparisonMap) {vkey : Text} {val1 : V}
    (h1 : data1.get? vkey = some val1) :
    (checkStat py comparisonMap data1 data2 vkey).isSome = true ↔
      ∃ val2, data2.get? vkey = some val2 ∧
        (compareField py val1 val2 (comparisonMap.bind (·.get? vkey))).isSome = true := by
  cases h2 : data2.get? vkey with
  | none => simp [checkStat, h1, h2]
  | some val2 => simp [checkStat_eq py comparisonMap h1 h2]

/-- The loop finds something when a field fails. -/
theorem exists_checkStat_iff (comparisonMap : Option ComparisonMap) :
    (∃ key, ∃ item ∈ data1.keys, ∃ text, checkStat py comparisonMap data1 data2 item = some (some (key, text))) ↔
      ∃ vkey val1 val2, data1.get? vkey = some val1 ∧ data2.get? vkey = some val2 ∧
        FieldFails py val1 val2 (comparisonMap.bind (·.get? vkey)) := by
  constructor
  · rintro ⟨key, item, hitem, text, hcheck⟩
    obtain ⟨val1, h1⟩ := Dict.mem_keys_iff_exists.1 hitem
    obtain ⟨val2, h2, -⟩ := (checkStat_isSome_iff py comparisonMap h1).1 (by rw [hcheck]; rfl)
    rw [checkStat_eq py comparisonMap h1 h2] at hcheck
    refine ⟨item, val1, val2, h1, h2, ?_⟩
    simp at hcheck
    exact ⟨text, hcheck.1⟩
  · rintro ⟨vkey, val1, val2, h1, h2, text, hfails⟩
    refine ⟨vkey, vkey, Dict.mem_keys_of_get? h1, text, ?_⟩
    rw [checkStat_eq py comparisonMap h1 h2, hfails]
    rfl

end Keys

/-- The comparison of two entries is right when they can be compared. -/
theorem compareStats_right_iff (comparisonMap : Option ComparisonMap) (data1 data2 : Dict Text V) :
    (∃ reason, compareStats py comparisonMap data1 data2 = some reason ∧
      (0 < reason.items.length ↔ StatsDiffer py comparisonMap data1 data2)) ↔
      StatsComparable py comparisonMap data1 data2 := by
  unfold compareStats StatsComparable
  by_cases hlength : data1.keys.length = data2.keys.length
  · rw [if_pos hlength]
    obtain ⟨hreturns, hkeys⟩ := collect_spec (checkStat py comparisonMap data1 data2) data1.keys
    constructor
    · rintro ⟨reason, hreason, -⟩ -
      have hsome : ∀ vkey val1, data1.get? vkey = some val1 → ∃ val2, data2.get? vkey = some val2 ∧
          (compareField py val1 val2 (comparisonMap.bind (·.get? vkey))).isSome = true :=
        fun vkey val1 h1 => (checkStat_isSome_iff py comparisonMap h1).1
          (hreturns.1 ⟨reason, hreason⟩ vkey (Dict.mem_keys_of_get? h1))
      refine ⟨same_keys_of_subset hlength fun vkey hvkey => ?_, fun vkey val1 val2 h1 h2 => ?_⟩
      · obtain ⟨val1, h1⟩ := Dict.mem_keys_iff_exists.1 hvkey
        obtain ⟨val2, h2, -⟩ := hsome vkey val1 h1
        exact Dict.mem_keys_of_get? h2
      · obtain ⟨val2', h2', hfield⟩ := hsome vkey val1 h1
        rw [h2, Option.some.injEq] at h2'
        rwa [h2']
    · intro h
      obtain ⟨hsame, hfields⟩ := h hlength
      obtain ⟨reason, hreason⟩ := hreturns.2 (by
        intro vkey hvkey
        obtain ⟨val1, h1⟩ := Dict.mem_keys_iff_exists.1 hvkey
        obtain ⟨val2, h2⟩ := Dict.mem_keys_iff_exists.1 ((hsame vkey).1 hvkey)
        exact (checkStat_isSome_iff py comparisonMap h1).2 ⟨val2, h2, hfields vkey val1 val2 h1 h2⟩)
      refine ⟨reason, hreason, ?_⟩
      rw [length_items_pos_iff, exists_congr (hkeys reason hreason), exists_checkStat_iff, StatsDiffer,
        or_iff_right (not_not_intro hsame)]
  · rw [if_neg hlength]
    have hdiffer : StatsDiffer py comparisonMap data1 data2 := .inl fun hsame => hlength (length_keys_eq hsame)
    refine ⟨fun _ h => absurd h hlength, fun _ => ⟨_, rfl, fun _ => hdiffer, fun _ => ?_⟩⟩
    exact length_items_pos_iff.2 ⟨"number of key mismatch".toList, by simp⟩

end Stats

/-! ## Lines -/

section Lines

variable {V : Type} (py : Builtins V)

/-- The rule that the comparison map gives for the name of a column. -/
def nameRule (headerInfo : Text) (comparisonMap : Option ComparisonMap) (i : ℕ) : Option Rule :=
  ((headerInfo.splitOn ',')[i]?).bind fun field => comparisonMap.bind (·.get? field)

/-- The rule that is applied to a column: that for a character of the header. -/
def characterRule (headerInfo : Text) (comparisonMap : Option ComparisonMap) (i : ℕ) : Option Rule :=
  (columnRule headerInfo comparisonMap i).join

/-- The column fails its rule; without a rule, the texts differ. -/
def ColumnFails (value1 value2 : Text) : Option Rule → Prop
  | some logic => ∃ text, compareValues py (py.str value1) (py.str value2) logic = some (some text)
  | none => value1 ≠ value2

/-- Some column fails its rule. -/
def SomeColumnFails (rules : ℕ → Option Rule) (data1 data2 : List Text) : Prop :=
  ∃ i value1 value2, data1[i]? = some value1 ∧ data2[i]? = some value2 ∧ ColumnFails py value1 value2 (rules i)

/-- The lines have different numbers of columns, or a column fails the rule for its name. -/
def LinesDiffer (headerInfo : Text) (comparisonMap : Option ComparisonMap) (line1 line2 : Text) : Prop :=
  (line1.splitOn ',').length ≠ (line2.splitOn ',').length ∨
    SomeColumnFails py (nameRule headerInfo comparisonMap) (line1.splitOn ',') (line2.splitOn ',')

/-- The column can be compared: where a rule has to be looked up, the header has a character there; where there is a
    rule, it can be applied; and where there is one, or the texts differ, the column has a name. -/
def ColumnComparable (headerInfo : Text) (comparisonMap : Option ComparisonMap) (i : ℕ) (value1 value2 : Text) : Prop :=
  (comparisonMap ≠ none → i < headerInfo.length) ∧
    match characterRule headerInfo comparisonMap i with
    | some logic => i < (headerInfo.splitOn ',').length ∧
        (compareValues py (py.str value1) (py.str value2) logic).isSome = true
    | none => value1 = value2 ∨ i < (headerInfo.splitOn ',').length

/-- In lines with as many columns each can be compared, and some column fails the rule that is applied to it exactly
    when one fails the rule for its name. -/
def LinesComparable (headerInfo : Text) (comparisonMap : Option ComparisonMap) (line1 line2 : Text) : Prop :=
  (line1.splitOn ',').length = (line2.splitOn ',').length →
    (∀ i value1 value2, (line1.splitOn ',')[i]? = some value1 → (line2.splitOn ',')[i]? = some value2 →
      ColumnComparable py headerInfo comparisonMap i value1 value2) ∧
    (SomeColumnFails py (characterRule headerInfo comparisonMap) (line1.splitOn ',') (line2.splitOn ',') ↔
      SomeColumnFails py (nameRule headerInfo comparisonMap) (line1.splitOn ',') (line2.splitOn ','))

variable {headerInfo : Text} {comparisonMap : Option ComparisonMap} {data1 data2 : List Text} {i : ℕ}
  {value1 value2 : Text}

theorem columnRule_isSome_iff :
    (columnRule headerInfo comparisonMap i).isSome = true ↔ (comparisonMap ≠ none → i < headerInfo.length) := by
  cases comparisonMap <;> simp [columnRule]

/-- The turn of the loop for a column. -/
theorem checkColumn_spec (h1 : data1[i]? = some value1) (h2 : data2[i]? = some value2) :
    ((checkColumn py false headerInfo comparisonMap data1 data2 i).isSome = true ↔
      ColumnComparable py headerInfo comparisonMap i value1 value2) ∧
    ((∃ key text, checkColumn py false headerInfo comparisonMap data1 data2 i = some (some (key, text))) ↔
      ColumnComparable py headerInfo comparisonMap i value1 value2 ∧
        ColumnFails py value1 value2 (characterRule headerInfo comparisonMap i)) := by
  unfold ColumnComparable characterRule
  rw [← columnRule_isSome_iff]
  simp only [checkColumn, h1, h2, Option.bind_eq_bind, Option.bind_some]
  cases hrule : columnRule headerInfo comparisonMap i with
  | none => simp
  | some rule =>
      rw [Option.bind_some, Option.join_some]
      have hfield : (headerInfo.splitOn ',')[i]?.isSome = true ↔ i < (headerInfo.splitOn ',').length := by simp
      rw [← hfield]
      cases (headerInfo.splitOn ',')[i]? with
      | none =>
          cases rule with
          | none => by_cases heq : value1 = value2 <;> simp [heq, ColumnFails]
          | some logic => simp
      | some field =>
          cases rule with
          | none => by_cases heq : value1 = value2 <;> simp [heq, ColumnFails, columnDiffers]
          | some logic =>
              cases hvalues : compareValues py (py.str value1) (py.str value2) logic with
              | none => simp [ColumnFails, hvalues]
              | some found => cases found <;> simp [ColumnFails, hvalues]

/-- The values of a column that both lines have. -/
theorem exists_values (hlength : data1.length = data2.length) (hi : i ∈ List.range data1.length) :
    ∃ value1 value2, data1[i]? = some value1 ∧ data2[i]? = some value2 := by
  rw [List.mem_range] at hi
  exact ⟨data1[i], data2[i], List.getElem?_eq_getElem hi, List.getElem?_eq_getElem (hlength ▸ hi)⟩

/-- The loop finds something when a column fails. -/
theorem exists_checkColumn_iff (hlength : data1.length = data2.length)
    (hcomparable : ∀ i value1 value2, data1[i]? = some value1 → data2[i]? = some value2 →
      ColumnComparable py headerInfo comparisonMap i value1 value2) :
    (∃ key, ∃ i ∈ List.range data1.length, ∃ text,
        checkColumn py false headerInfo comparisonMap data1 data2 i = some (some (key, text))) ↔
      SomeColumnFails py (characterRule headerInfo comparisonMap) data1 data2 := by
  constructor
  · rintro ⟨key, i, hi, text, hcheck⟩
    obtain ⟨value1, value2, h1, h2⟩ := exists_values hlength hi
    exact ⟨i, value1, value2, h1, h2, ((checkColumn_spec py h1 h2).2.1 ⟨key, text, hcheck⟩).2⟩
  · rintro ⟨i, value1, value2, h1, h2, hfails⟩
    obtain ⟨key, text, hcheck⟩ := (checkColumn_spec py h1 h2).2.2 ⟨hcomparable i value1 value2 h1 h2, hfails⟩
    exact ⟨key, i, List.mem_range.2 (List.getElem?_eq_some_iff.1 h1).1, text, hcheck⟩

/-- The comparison of two lines is right when the rules that are applied tell the lines apart as their own do. -/
theorem compareLines_right_iff (headerInfo : Text) (comparisonMap : Option ComparisonMap) (line1 line2 : Text) :
    (∃ reason, compareLines py false headerInfo comparisonMap line1 line2 = some reason ∧
      (0 < reason.items.length ↔ LinesDiffer py headerInfo comparisonMap line1 line2)) ↔
      LinesComparable py headerInfo comparisonMap line1 line2 := by
  unfold compareLines LinesComparable LinesDiffer
  generalize line1.splitOn ',' = data1
  generalize line2.splitOn ',' = data2
  by_cases hlength : data1.length = data2.length
  · simp only [hlength, ne_eq, not_true_eq_false, false_or, if_true, forall_const]
    rw [← hlength]
    obtain ⟨hreturns, hkeys⟩ := collect_spec (checkColumn py false headerInfo comparisonMap data1 data2)
      (List.range data1.length)
    have hfound : ∀ reason, collect (checkColumn py false headerInfo comparisonMap data1 data2)
        (List.range data1.length) = some reason →
        (∀ i value1 value2, data1[i]? = some value1 → data2[i]? = some value2 →
          ColumnComparable py headerInfo comparisonMap i value1 value2) →
        (0 < reason.items.length ↔ SomeColumnFails py (characterRule headerInfo comparisonMap) data1 data2) := by
      intro reason hreason hcomparable
      rw [length_items_pos_iff, exists_congr (hkeys reason hreason), exists_checkColumn_iff py hlength hcomparable]
    constructor
    · rintro ⟨reason, hreason, hdiffer⟩
      have hcomparable : ∀ i value1 value2, data1[i]? = some value1 → data2[i]? = some value2 →
          ColumnComparable py headerInfo comparisonMap i value1 value2 := by
        intro i value1 value2 h1 h2
        have hi : i ∈ List.range data1.length := List.mem_range.2 (List.getElem?_eq_some_iff.1 h1).1
        exact (checkColumn_spec py h1 h2).1.1 (hreturns.1 ⟨reason, hreason⟩ i hi)
      exact ⟨hcomparable, (hfound reason hreason hcomparable).symm.trans hdiffer⟩
    · rintro ⟨hcomparable, hsame⟩
      obtain ⟨reason, hreason⟩ := hreturns.2 (by
        intro i hi
        obtain ⟨value1, value2, h1, h2⟩ := exists_values hlength hi
        exact (checkColumn_spec py h1 h2).1.2 (hcomparable i value1 value2 h1 h2))
      exact ⟨reason, hreason, (hfound reason hreason hcomparable).trans hsame⟩
  · simp only [if_neg hlength]
    refine ⟨fun _ h => absurd h hlength, fun _ => ⟨_, rfl, fun _ => .inl hlength, fun _ => ?_⟩⟩
    exact length_items_pos_iff.2 ⟨"number of value mismatch".toList, by simp⟩

end Lines

/-! ## The two comparisons -/

/-- **When the comparisons are right**: `compare_maps` for entries that can be compared, and `compare_data_maps` for
    lines that can be compared and that the rules for characters of the header tell apart as the rules for its fields
    do. -/
theorem compare_right_iff {V : Type} (py : Builtins V) :
    (∀ (info1 info2 : Dict Text (Dict Text V)) (comparisonMap : Option ComparisonMap),
      Right info1 info2 (StatsDiffer py comparisonMap) (compareMaps py info1 info2 comparisonMap) ↔
        ∀ key data1 data2, info1.get? key = some data1 → info2.get? key = some data2 →
          StatsComparable py comparisonMap data1 data2) ∧
    ∀ (info1 info2 : Dict Text Text) (headerInfo : Text) (comparisonMap : Option ComparisonMap),
      Right info1 info2 (LinesDiffer py headerInfo comparisonMap)
          (compareDataMaps py info1 info2 headerInfo comparisonMap false) ↔
        ∀ key line1 line2, info1.get? key = some line1 → info2.get? key = some line2 →
          LinesComparable py headerInfo comparisonMap line1 line2 := by
  constructor
  · intro info1 info2 comparisonMap
    simp only [compareMaps, compareInfos_right_iff, compareStats_right_iff]
  · intro info1 info2 headerInfo comparisonMap
    simp only [compareDataMaps, compareInfos_right_iff, compareLines_right_iff]

/-! ## A field that is missing, and a rule that is not found -/

section Sample

/-- The values of statistics: texts, and the numbers `int` makes of them. -/
inductive Stat where
  | none
  | str (text : Text)
  | int (i : ℤ)
deriving DecidableEq

/-- The interpreter on these values, without floating point. -/
def sampleBuiltins : Builtins Stat where
  str := .str
  none := .none
  int
    | .none => .none
    | .str text => (readInt text).map .int
    | .int i => some (.int i)
  float _ := .none
  eq a b := a = b
  order
    | .ge, .int a, .int b => some (b ≤ a)
    | .le, .int a, .int b => some (a ≤ b)
    | .gt, .int a, .int b => some (b < a)
    | .lt, .int a, .int b => some (a < b)
    | _, _, _ => .none
  format
    | .none => "None".toList
    | .str text => text
    | .int i => intText i
  formatTexts texts := join ',' texts

def sampleStats (vkey : Text) : Dict Text (Dict Text Stat) :=
  (∅ : Dict Text (Dict Text Stat)).set "vb_0".toList ((∅ : Dict Text Stat).set vkey (.str "1".toList))

def sampleLines (line : Text) : Dict Text Text := (∅ : Dict Text Text).set "k".toList line

/-- The column `seqno` is not compared. -/
def sampleRules : ComparisonMap := (∅ : ComparisonMap).set "seqno".toList ⟨"int".toList, "filter".toList⟩

/-- The lines are alike in all columns that are compared. -/
theorem not_linesDiffer :
    ¬ LinesDiffer sampleBuiltins "key,seqno".toList (some sampleRules) "k,1".toList "k,2".toList := by
  have hcolumns1 : "k,1".toList.splitOn ',' = ["k".toList, "1".toList] := by decide
  have hcolumns2 : "k,2".toList.splitOn ',' = ["k".toList, "2".toList] := by decide
  unfold LinesDiffer
  rw [hcolumns1, hcolumns2]
  rintro (hlength | ⟨i, value1, value2, h1, h2, hfails⟩)
  · exact hlength rfl
  · rcases i with _ | _ | i
    · have hrule : nameRule "key,seqno".toList (some sampleRules) 0 = .none := by decide
      rw [hrule] at hfails
      exact hfails ((Option.some.inj h1).symm.trans (Option.some.inj h2))
    · have hrule : nameRule "key,seqno".toList (some sampleRules) 1 = some ⟨"int".toList, "filter".toList⟩ := rfl
      rw [hrule] at hfails
      obtain ⟨text, htext⟩ := hfails
      obtain rfl := Option.some.inj h1
      obtain rfl := Option.some.inj h2
      have hpasses : compareValues sampleBuiltins (.str "1".toList) (.str "2".toList) ⟨"int".toList, "filter".toList⟩
          = some .none := rfl
      have hmissing := hpasses.symm.trans htext
      simp at hmissing
    · simp at h1

/-- `compare_maps` raises for entries with one field each under different names, and `compare_data_maps` reports lines
    that differ only in a column that is not to be compared. -/
theorem compare_not_right :
    compareMaps sampleBuiltins (sampleStats "num_items".toList) (sampleStats "high_seqno".toList) .none = .none ∧
      ¬ Right (sampleLines "k,1".toList) (sampleLines "k,2".toList)
        (LinesDiffer sampleBuiltins "key,seqno".toList (some sampleRules))
        (compareDataMaps sampleBuiltins (sampleLines "k,1".toList) (sampleLines "k,2".toList) "key,seqno".toList
          (some sampleRules) false) := by
  refine ⟨rfl, ?_⟩
  rintro ⟨r, hr, -, -, hupdated⟩
  have hkeys : (compareDataMaps sampleBuiltins (sampleLines "k,1".toList) (sampleLines "k,2".toList)
      "key,seqno".toList (some sampleRules) false).map (fun r => r.updatedItems.keys) = some ["k".toList] := rfl
  rw [hr, Option.map_some, Option.some.injEq] at hkeys
  have hreported := (hupdated "k".toList "k,1".toList "k,2".toList rfl rfl).1 (by simp [hkeys])
  exact not_linesDiffer hreported

end Sample

end DataAnalyzer
