import TestInfra.Backup.Info
import TestInfra.Lib.PyInt
import TestInfra.Lib.Raises
import TestInfra.Lib.SplitOn

set_option autoImplicit false

/-! # From the lines of `cbbackupmgr info` to the tree

`sub_group_lines` (`lib/parse_cbbackupmgr_info.py`) closes a group at every blank line, also when it holds no line
yet: a blank line at the start, or behind another one, makes an empty group. `line_to_dict` reads the first line of
each group it is given, and `construct_tree` raises.

Without such blank lines the groups are the runs of lines that are not blank, and the tree is built
(`constructTree_right_iff`). -/

open PyText

namespace BackupInfo

/-! ## Groups of lines -/

/-- The body of the loop: the groups so far and the lines of the current one. -/
def subGroupStep (st : List (List Text) × List Text) (line : Text) : List (List Text) × List Text :=
  if (rstrip isSpace line).length > 0 then (st.1, st.2 ++ [rstrip isSpace line]) else (st.1 ++ [st.2], [])

/-- `sub_group_lines`. -/
def subGroupLines (lines : List Text) : List (List Text) :=
  let (groups, subGroup) := lines.foldl subGroupStep ([], [])
  if subGroup.length > 0 then groups ++ [subGroup] else groups

/-- The runs of lines that are not blank: what stands between blank lines, where there is something. -/
def runs (lines : List Text) : List (List Text) :=
  ((lines.map (rstrip isSpace)).splitOn []).filter (· ≠ [])

/-- No line is blank at the start or behind a blank one. -/
def Tidy (lines : List Text) : Prop :=
  ([] :: lines.map (rstrip isSpace)).IsChain fun before line => before ≠ [] ∨ line ≠ []

instance (lines : List Text) : Decidable (Tidy lines) := inferInstanceAs (Decidable (List.IsChain _ _))

/-! ## Tables -/

/-- `re.sub(r"^[*|+|~|#|-]", "", line)`. -/
def subStart : Text → Text
  | [] => []
  | c :: line => if c ∈ ['*', '|', '+', '~', '#', '-'] then line else c :: line

def stripAndSplit (line : Text) : List Text := ((subStart line).splitOn '|').dropLast.map strip

/-- The level of a table, by the first character of its first line. -/
def nodeTypes : Dict Char Text :=
  [('*', "repos".toList), ('+', "backups".toList), ('-', "buckets".toList), ('~', "scopes".toList),
    ('#', "collections".toList)].foldl (fun d item => d.set item.1 item.2) ∅

def nodeType (startSym : Char) : Text := (nodeTypes.get? startSym).getD "archives".toList

/-- `dict(zip(first_line, line))`. -/
def row (firstLine line : List Text) : Dict Text Text :=
  (firstLine.zip line).foldl (fun d item => d.set item.1 item.2) ∅

/-- `line_to_dict`; `none` is the `IndexError` of `lines[0][0]`. -/
def lineToDict : List Text → Option (Text × List (Dict Text Text))
  | (startSym :: first) :: lines =>
      some (nodeType startSym, lines.map fun line => row (stripAndSplit (startSym :: first)) (stripAndSplit line))
  | _ => none

/-! ## Keys and values -/

/-- The names in the tabular output and those in the JSON. -/
def keySubstitution : Dict Text Text :=
  [("uuid".toList, "archive_uuid".toList), ("cluster uuid".toList, "source_cluster_uuid".toList),
    ("# backups".toList, "count".toList), ("backup".toList, "date".toList), ("bucket".toList, "name".toList),
    ("aliases".toList, "fts_alias".toList), ("indexes".toList, "index_count".toList),
    ("views".toList, "views_count".toList), ("fts".toList, "fts_count".toList),
    ("cbas".toList, "analytics_count".toList)].foldl (fun d item => d.set item.1 item.2) ∅

/-- `transform_key`; `lower` is `str.lower`. -/
def transformKey (lower : Text → Text) (key : Text) : Text :=
  let key := strip (lower key)
  (keySubstitution.get? key).getD key

/-- Python's floats: `float(text)`, the product with `1024 ** k`, and `int(..)`, which raises for an infinite one. -/
structure Floats (F : Type*) where
  ofText : Text → F
  scale : F → ℕ → F
  trunc : F → Option ℤ

/-- A value of the JSON that is no text. -/
inductive Scalar (F : Type*) where
  | int (n : ℤ)
  | float (x : F)
  | bool (b : Bool)

/-- `[0-9]+`. -/
def digits (text : Text) : Bool := text ≠ [] && text.all Char.isDigit

/-- `^[+-]?([0-9]*[\.])?[0-9]+$`. -/
def isNumber (text : Text) : Bool :=
  let unsigned := match text with
    | '+' :: rest => rest
    | '-' :: rest => rest
    | _ => text
  match unsigned.splitOn '.' with
  | [whole] => digits whole
  | [whole, fraction] => whole.all Char.isDigit && digits fraction
  | _ => false

/-- A number with the unit behind it. -/
def hasUnit (unit val : Text) : Bool := unit.isSuffixOf val && isNumber (val.take (val.length - unit.length))

variable {F : Type*} (lower : Text → Text) (floats : Floats F)

/-- The number of bytes that a size stands for, before `int`. -/
def sizeOf? (val : Text) : Option F :=
  if hasUnit "B".toList val then some (floats.ofText (val.take (val.length - 1)))
  else if hasUnit "KiB".toList val then some (floats.scale (floats.ofText (val.take (val.length - 3))) 1)
  else if hasUnit "MiB".toList val then some (floats.scale (floats.ofText (val.take (val.length - 3))) 2)
  else if hasUnit "GiB".toList val then some (floats.scale (floats.ofText (val.take (val.length - 3))) 3)
  else none

/-- `transform_val`; `none` is the error of `int` for a size that is infinite as a float. -/
def transformVal (val : Text) : Option (Json (Scalar F)) :=
  match sizeOf? floats val with
  | some size => (floats.trunc size).map fun bytes => .scalar (.int bytes)
  | none =>
      if isNumber val then
        match readInt val with
        | some n => some (.scalar (.int n))
        | none => some (.scalar (.float (floats.ofText val)))
      else if val = "true".toList then some (.scalar (.bool true))
      else if val = "false".toList then some (.scalar (.bool false))
      else some (.str val)

/-- A dictionary with its keys and values transformed. -/
def transformItems (dictionary : Dict Text Text) : Option (Dict Text (Json (Scalar F))) :=
  dictionary.items.foldlM
    (fun d item => (transformVal floats item.2).map fun val => d.set (transformKey lower item.1) val) ∅

/-- The loop of `construct_tree` over the dictionaries of a group. -/
def addGroup (tree : Items (Scalar F)) (group : List Text) : Option (Items (Scalar F)) :=
  (lineToDict group).bind fun table =>
    table.2.foldlM (fun tree dictionary =>
      (transformItems lower floats dictionary).bind fun d => traverseDict tree table.1 d.items) tree

/-- `construct_tree`. -/
def constructTreeOfLines (lines : List Text) : Option (Json (Scalar F)) :=
  ((subGroupLines lines).foldlM (addGroup lower floats) []).bind returned

/-! ## Groups and runs -/

section Groups

/-- The loop cuts at the blank lines: with what is before them in `subGroup`, the pieces of the lines that follow. -/
theorem foldl_subGroupStep (lines : List Text) (groups : List (List Text)) (subGroup : List Text) :
    (lines.foldl subGroupStep (groups, subGroup)).1 ++ [(lines.foldl subGroupStep (groups, subGroup)).2]
      = groups ++ ((lines.map (rstrip isSpace)).splitOn []).modifyHead (subGroup ++ ·) := by
  induction lines generalizing groups subGroup with
  | nil => simp
  | cons line lines ih =>
      obtain ⟨first, others, hpieces⟩ := List.exists_cons_of_ne_nil
        (List.splitOn_ne_nil ([] : Text) (lines.map (rstrip isSpace)))
      rw [List.foldl_cons, List.map_cons, List.splitOn_cons_eq_if_modifyHead]
      unfold subGroupStep at ih ⊢
      by_cases hblank : rstrip isSpace line = []
      · rw [if_neg (by simp [hblank]), ih, if_pos (by simp [hblank]), hpieces]
        simp
      · have hpos : (rstrip isSpace line).length > 0 := List.length_pos_of_ne_nil hblank
        rw [if_pos hpos, ih, if_neg (by simp [hblank]), hpieces]
        simp

/-- Without its empty groups, the result is the runs. -/
theorem filter_subGroupLines (lines : List Text) : (subGroupLines lines).filter (· ≠ []) = runs lines := by
  have hpieces := foldl_subGroupStep lines [] []
  rw [List.nil_append] at hpieces
  have hhead : ((lines.map (rstrip isSpace)).splitOn []).modifyHead ([] ++ ·)
      = (lines.map (rstrip isSpace)).splitOn [] := by
    cases (lines.map (rstrip isSpace)).splitOn [] <;> rfl
  rw [hhead] at hpieces
  rw [runs, ← hpieces, subGroupLines]
  dsimp only
  split
  · rfl
  · next hempty =>
      have hnil : (lines.foldl subGroupStep ([], [])).2 = [] := List.eq_nil_of_length_eq_zero (by omega)
      rw [List.filter_append, hnil]
      simp

theorem subGroupLines_eq_runs_iff (lines : List Text) :
    subGroupLines lines = runs lines ↔ [] ∉ subGroupLines lines := by
  rw [← filter_subGroupLines]
  constructor
  · intro heq hmem
    rw [heq, List.mem_filter] at hmem
    simp at hmem
  · intro hmem
    refine (List.filter_eq_self.2 fun group hgroup => ?_).symm
    simp only [ne_eq, decide_eq_true_iff]
    rintro rfl
    exact hmem hgroup

/-- A group is empty when a blank line comes with no line before it. -/
theorem nil_mem_iff (lines : List Text) (groups : List (List Text)) (subGroup : List Text) (before : Text)
    (hbefore : subGroup = [] ↔ before = []) :
    [] ∉ (lines.foldl subGroupStep (groups, subGroup)).1 ↔
      [] ∉ groups ∧ (before :: lines.map (rstrip isSpace)).IsChain fun before line => before ≠ [] ∨ line ≠ [] := by
  induction lines generalizing groups subGroup before with
  | nil => simp
  | cons line lines ih =>
      rw [List.foldl_cons, List.map_cons, List.isChain_cons_cons]
      unfold subGroupStep at ih ⊢
      by_cases hblank : rstrip isSpace line = []
      · rw [if_neg (by simp [hblank]), ih _ [] [] (by simp), hblank]
        simp only [List.mem_append, List.mem_singleton, not_or, @eq_comm _ [] subGroup, hbefore, ne_eq,
          not_true_eq_false, or_false, and_assoc]
      · have hpos : (rstrip isSpace line).length > 0 := List.length_pos_of_ne_nil hblank
        rw [if_pos hpos, ih _ _ (rstrip isSpace line) (by simp [hblank])]
        simp [hblank]

/-- The groups are the runs exactly for tidy lines. -/
theorem subGroupLines_eq_iff (lines : List Text) : subGroupLines lines = runs lines ↔ Tidy lines := by
  have hloop := nil_mem_iff lines [] [] [] (by simp)
  rw [subGroupLines_eq_runs_iff, subGroupLines, Tidy]
  dsimp only
  split
  · next hpos =>
      rw [List.mem_append, not_or, hloop]
      simp [List.ne_nil_of_length_pos hpos]
  · rw [hloop]
    simp

end Groups

/-! ## Trees -/

section Shaped

variable {α : Type*}

/-- Under the name of a level there are children, and they are such dictionaries themselves. -/
inductive Shaped : Items α → Prop
  | intro {conductor : Items α}
      (list : ∀ level ∈ nodePriority, ∀ value, Assoc.find level conductor = some value →
        ∃ children, children ≠ [] ∧ value = .list children)
      (dict : ∀ level ∈ nodePriority, ∀ children, Assoc.find level conductor = some (.list children) →
        ∀ child ∈ children, ∃ items, child = .dict items)
      (shaped : ∀ level ∈ nodePriority, ∀ children, Assoc.find level conductor = some (.list children) →
        ∀ items, Json.dict items ∈ children → Shaped items) :
      Shaped conductor

/-- A dictionary that has no level. -/
theorem shaped_of_plain {conductor : Items α} (h : ∀ level ∈ nodePriority, Assoc.find level conductor = none) :
    Shaped conductor := by
  refine .intro ?_ ?_ ?_
  · intro level hlevel value hvalue
    rw [h level hlevel] at hvalue
    cases hvalue
  · intro level hlevel children hchildren
    rw [h level hlevel] at hchildren
    cases hchildren
  · intro level hlevel children hchildren
    rw [h level hlevel] at hchildren
    cases hchildren

theorem Shaped.store {conductor : Items α} (h : Shaped conductor) (level : Text) {children : List (Json α)}
    (hne : children ≠ []) (hchildren : ∀ child ∈ children, ∃ items, child = .dict items ∧ Shaped items) :
    Shaped (Assoc.store level (.list children) conductor) := by
  obtain ⟨hlist, hdict, hshaped⟩ := h
  refine .intro ?_ ?_ ?_
  · intro level' hlevel' value hvalue
    rw [Assoc.find_store] at hvalue
    split at hvalue
    · exact ⟨children, hne, (Option.some.inj hvalue).symm⟩
    · exact hlist level' hlevel' value hvalue
  · intro level' hlevel' children' hfind child hchild
    rw [Assoc.find_store] at hfind
    split at hfind
    · obtain rfl := Json.list.inj (Option.some.inj hfind)
      obtain ⟨items, heq, -⟩ := hchildren child hchild
      exact ⟨items, heq⟩
    · exact hdict level' hlevel' children' hfind child hchild
  · intro level' hlevel' children' hfind items hitems
    rw [Assoc.find_store] at hfind
    split at hfind
    · obtain rfl := Json.list.inj (Option.some.inj hfind)
      obtain ⟨items', heq, hitems'⟩ := hchildren _ hitems
      rwa [Json.dict.inj heq]
    · exact hshaped level' hlevel' children' hfind items hitems

theorem Shaped.children {conductor : Items α} (h : Shaped conductor) {level : Text} (hlevel : level ∈ nodePriority)
    {children : List (Json α)} (hfind : Assoc.find level conductor = some (.list children)) :
    ∀ child ∈ children, ∃ items, child = .dict items ∧ Shaped items := by
  obtain ⟨-, hdict, hshaped⟩ := h
  intro child hchild
  obtain ⟨items, rfl⟩ := hdict level hlevel children hfind child hchild
  exact ⟨items, rfl, hshaped level hlevel children hfind items hchild⟩

theorem Shaped.find {conductor : Items α} (h : Shaped conductor) {level : Text} (hlevel : level ∈ nodePriority) :
    Assoc.find level conductor = none ∨
      ∃ children, children ≠ [] ∧ Assoc.find level conductor = some (.list children) := by
  obtain ⟨hlist, -, -⟩ := h
  cases hfind : Assoc.find level conductor with
  | none => exact .inl rfl
  | some value =>
      obtain ⟨children, hne, rfl⟩ := hlist level hlevel value hfind
      exact .inr ⟨children, hne, rfl⟩

theorem Shaped.append {conductor dictionary : Items α} (h : Shaped conductor) (hdictionary : Shaped dictionary)
    {level : Text} (hlevel : level ∈ nodePriority) :
    ∃ conductor', append level dictionary conductor = some conductor' ∧ Shaped conductor' := by
  rcases h.find hlevel with hfind | ⟨children, -, hfind⟩
  · refine ⟨_, append_of_list (by rw [hfind]; rfl), h.store level (by simp) ?_⟩
    intro child hchild
    obtain rfl := List.mem_singleton.1 hchild
    exact ⟨dictionary, rfl, hdictionary⟩
  · refine ⟨_, append_of_list (by rw [hfind]; rfl), h.store level (by simp) ?_⟩
    intro child hchild
    rcases List.mem_append.1 hchild with hchild | hchild
    · exact h.children hlevel hfind child hchild
    · obtain rfl := List.mem_singleton.1 hchild
      exact ⟨dictionary, rfl, hdictionary⟩

/-- The walk comes through, and keeps the shape. -/
theorem Shaped.walk {dictionary : Items α} (hdictionary : Shaped dictionary) {level : Text}
    (hlevel : level ∈ nodePriority) {parents : List Text} (hparents : ∀ parent ∈ parents, parent ∈ nodePriority)
    {conductor : Items α} (h : Shaped conductor) :
    ∃ conductor', walk level dictionary parents conductor = some conductor' ∧ Shaped conductor' := by
  induction parents generalizing conductor with
  | nil => exact h.append hdictionary hlevel
  | cons parent parents ih =>
      rw [List.forall_mem_cons] at hparents
      rcases h.find hparents.1 with hfind | ⟨children, hne, hfind⟩
      · rw [BackupInfo.walk, hfind]
        exact ih hparents.2 h
      · obtain ⟨done, child, rfl⟩ := (List.eq_nil_or_concat' children).resolve_left hne
        obtain ⟨last, rfl, hlast⟩ := h.children hparents.1 hfind child (by simp)
        obtain ⟨last', hwalk, hlast'⟩ := ih hparents.2 hlast
        rw [walk_cons hfind, hwalk]
        refine ⟨_, rfl, h.store parent (by simp) ?_⟩
        intro child hchild
        rcases List.mem_append.1 hchild with hchild | hchild
        · exact h.children hparents.1 hfind child (List.mem_append_left _ hchild)
        · obtain rfl := List.mem_singleton.1 hchild
          exact ⟨last', rfl, hlast'⟩

theorem Shaped.traverseDict {tree dictionary : Items α} (h : Shaped tree) (hdictionary : Shaped dictionary)
    {level : Text} (hlevel : level ∈ nodePriority) :
    ∃ tree', traverseDict tree level dictionary = some tree' ∧ Shaped tree' := by
  rw [BackupInfo.traverseDict, traverse, if_pos hlevel]
  exact hdictionary.walk hlevel (fun parent hparent => List.mem_of_mem_take hparent) h

theorem Shaped.returned {tree : Items α} (h : Shaped tree) : ∃ json, returned tree = some json := by
  have hlevel : "archives".toList ∈ nodePriority := by decide
  rcases h.find hlevel with hfind | ⟨children, hne, hfind⟩
  · exact ⟨_, by rw [BackupInfo.returned, hfind]⟩
  · obtain ⟨archive, others, rfl⟩ := List.exists_cons_of_ne_nil hne
    exact ⟨archive, by rw [BackupInfo.returned, hfind]⟩

end Shaped

/-! ## Reading a group -/

section Reading

variable (lower : Text → Text) {F : Type*} (floats : Floats F)

/-- The first line names columns, of which none is called like a level of the tree. -/
def HasHeader (group : List Text) : Prop :=
  ∃ header rows, group = header :: rows ∧ ∀ column ∈ stripAndSplit header, transformKey lower column ∉ nodePriority

/-- A size that is a number of bytes; a text that is none may be anything. -/
def FitsValue (val : Text) : Prop := ∀ size, sizeOf? floats val = some size → (floats.trunc size).isSome

/-- The sizes in the rows of the group are numbers of bytes. -/
def Fits (group : List Text) : Prop :=
  ∀ table, lineToDict group = some table → ∀ dictionary ∈ table.2, ∀ item ∈ dictionary.items, FitsValue floats item.2

/-- The groups are the runs of lines that are not blank, and if each of them has a header, the tree is built. -/
structure Right (lines : List Text) : Prop where
  groups : subGroupLines lines = runs lines
  tree : (∀ group ∈ runs lines, HasHeader lower group) → ∃ json, constructTreeOfLines lower floats lines = some json

variable {lower floats}

theorem transformVal_eq (floats : Floats F) (val : Text) :
    (FitsValue floats val → ∃ json, transformVal floats val = some json) ∧
      (¬ FitsValue floats val → transformVal floats val = none) := by
  unfold transformVal FitsValue
  cases hsize : sizeOf? floats val with
  | some size =>
      cases htrunc : floats.trunc size <;> simp [htrunc]
  | none =>
      refine ⟨fun _ => ?_, fun hnot => absurd (by simp) hnot⟩
      dsimp only
      split
      · split <;> exact ⟨_, rfl⟩
      · split
        · exact ⟨_, rfl⟩
        · split <;> exact ⟨_, rfl⟩

theorem nodeType_mem (startSym : Char) : nodeType startSym ∈ nodePriority := by
  unfold nodeType nodeTypes
  simp only [List.foldl_cons, List.foldl_nil, Dict.get?_set, Dict.get?_empty]
  split_ifs <;> decide

/-- A row has no keys but the header's columns. -/
theorem mem_of_mem_keys_row {firstLine line : List Text} {key : Text} (h : key ∈ (row firstLine line).keys) :
    key ∈ firstLine := by
  rw [row, Dict.mem_keys_foldl_set] at h
  rcases h with h | h
  · obtain ⟨item, hitem, rfl⟩ := List.mem_map.1 h
    exact (List.of_mem_zip hitem).1
  · exact absurd h List.not_mem_nil

/-- A row is transformed if its sizes fit, to a dictionary without a level. -/
theorem transformItems_eq (lower : Text → Text) (floats : Floats F) {dictionary : Dict Text Text}
    (hplain : ∀ key ∈ dictionary.keys, transformKey lower key ∉ nodePriority) :
    ((∀ item ∈ dictionary.items, FitsValue floats item.2) → ∃ d, transformItems lower floats dictionary = some d ∧
      ∀ level ∈ nodePriority, level ∉ d.keys) ∧
    ((¬ ∀ item ∈ dictionary.items, FitsValue floats item.2) → transformItems lower floats dictionary = none) := by
  refine Raises.foldlM_isSome_iff (I := fun d : Dict Text (Json (Scalar F)) => ∀ level ∈ nodePriority, level ∉ d.keys)
    ?_ (fun level _ h => List.not_mem_nil h)
  intro d hd item hitem
  have hkey : transformKey lower item.1 ∉ nodePriority := hplain item.1 (List.mem_map_of_mem hitem)
  obtain ⟨hfits, hnot⟩ := transformVal_eq floats item.2
  refine ⟨fun h => ?_, fun h => by rw [hnot h, Option.map_none]⟩
  obtain ⟨json, hjson⟩ := hfits h
  refine ⟨_, by rw [hjson, Option.map_some], fun level hlevel hmem => ?_⟩
  rcases (Dict.mem_keys_set ..).1 hmem with rfl | hmem
  · exact hkey hlevel
  · exact hd level hlevel hmem

/-- A group with a header is added to the tree if its sizes fit. -/
theorem addGroup_eq {tree : Items (Scalar F)} (htree : Shaped tree) {group : List Text}
    (hheader : HasHeader lower group) (hne : [] ∉ group) :
    (Fits floats group → ∃ tree', addGroup lower floats tree group = some tree' ∧ Shaped tree') ∧
      (¬ Fits floats group → addGroup lower floats tree group = none) := by
  obtain ⟨header, rows, rfl, hcolumns⟩ := hheader
  rw [List.mem_cons, not_or] at hne
  obtain ⟨startSym, first, rfl⟩ := List.exists_cons_of_ne_nil (Ne.symm hne.1)
  unfold Fits addGroup lineToDict
  simp only [Option.some.injEq, forall_eq', Option.bind_some]
  refine Raises.foldlM_isSome_iff ?_ htree
  intro tree htree dictionary hdictionary
  obtain ⟨line, -, rfl⟩ := List.mem_map.1 hdictionary
  obtain ⟨hfits, hnot⟩ := transformItems_eq lower floats
    fun key hkey => hcolumns key (mem_of_mem_keys_row hkey)
  refine ⟨fun h => ?_, fun h => by rw [hnot h, Option.bind_none]⟩
  obtain ⟨d, hd, hplain⟩ := hfits h
  have hshaped : Shaped d.items :=
    shaped_of_plain fun level hlevel => (Dict.not_mem_keys_iff d level).1 (hplain level hlevel)
  rw [hd, Option.bind_some]
  exact htree.traverseDict hshaped (nodeType_mem startSym)

variable (lower floats) in
/-- A group as `construct_tree` uses it: its level, and its dictionaries with their keys and values transformed. -/
def readGroup (group : List Text) : Option (Text × List (Items (Scalar F))) :=
  (lineToDict group).bind fun table =>
    (table.2.mapM fun dictionary => (transformItems lower floats dictionary).map Dict.items).map
      fun dictionaries => (table.1, dictionaries)

theorem addGroup_of_readGroup {group : List Text} {read : Text × List (Items (Scalar F))}
    (h : readGroup lower floats group = some read) (tree : Items (Scalar F)) :
    addGroup lower floats tree group
      = read.2.foldlM (fun tree dictionary => traverseDict tree read.1 dictionary) tree := by
  obtain ⟨table, htable, hread⟩ := Option.bind_eq_some_iff.1 h
  obtain ⟨dictionaries, hdictionaries, rfl⟩ := Option.map_eq_some_iff.1 hread
  rw [addGroup, htable, Option.bind_some, ← Raises.foldlM_of_mapM hdictionaries]
  simp only [Option.bind_map]
  rfl

/-- Where all groups can be read, the tree is the one made of them. -/
theorem constructTreeOfLines_eq {lines : List Text} {groups : List (Text × List (Items (Scalar F)))}
    (h : (subGroupLines lines).mapM (readGroup lower floats) = some groups) :
    constructTreeOfLines lower floats lines = constructTree groups := by
  have hloop : ∀ tree, (subGroupLines lines).foldlM (addGroup lower floats) tree
      = groups.foldlM (fun tree group =>
          group.2.foldlM (fun tree dictionary => traverseDict tree group.1 dictionary) tree) tree := by
    generalize subGroupLines lines = texts at h
    induction texts generalizing groups with
    | nil =>
        rw [List.mapM_nil] at h
        cases h
        exact fun _ => rfl
    | cons text texts ih =>
        rw [List.mapM_cons] at h
        obtain ⟨read, hread, h⟩ := Option.bind_eq_some_iff.1 h
        obtain ⟨others, hothers, h⟩ := Option.bind_eq_some_iff.1 h
        cases h
        intro tree
        rw [List.foldlM_cons, List.foldlM_cons, addGroup_of_readGroup hread]
        exact congrArg _ (funext fun tree => ih hothers tree)
  rw [constructTreeOfLines, constructTree, hloop]
  rfl

/-- **From the lines to the tree**: where the groups are read as the nodes of a forest in pre-order, what
    `construct_tree` makes of the lines is the tree of that forest. -/
theorem constructTreeOfLines_of_forest {lines : List Text} {groups : List (Text × List (Items (Scalar F)))}
    (h : (subGroupLines lines).mapM (readGroup lower floats) = some groups) (start : ℕ)
    (forest : List (Node (Scalar F) (nodePriority.drop start)))
    (hgroups : groups.flatMap (fun group => group.2.map fun dictionary => (group.1, dictionary))
      = forest.flatMap (preorder (nodePriority.drop start))) :
    constructTreeOfLines lower floats lines = returned (tree (nodePriority.drop start) forest) := by
  rw [constructTreeOfLines_eq h, constructTree_of_forest start forest hgroups]

/-- No line of a run is blank. -/
theorem nil_not_mem_of_mem_runs {lines group : List Text} (h : group ∈ runs lines) : [] ∉ group :=
  SplitOn.not_mem_of_mem_splitOn (List.mem_of_mem_filter h)

end Reading

/-- **When blank lines do no harm**: the groups are the runs of lines that are not blank, and the tree of those with a
    header is built, exactly if no line is blank at the start or behind a blank one, and every size in a table is a
    number of bytes. -/
theorem constructTree_right_iff (lower : Text → Text) {F : Type*} (floats : Floats F) (lines : List Text) :
    Right lower floats lines ↔
      Tidy lines ∧ ((∀ group ∈ runs lines, HasHeader lower group) → ∀ group ∈ runs lines, Fits floats group) := by
  have hloop : (∀ group ∈ runs lines, HasHeader lower group) →
      ((∀ group ∈ runs lines, Fits floats group) →
        ∃ tree, (runs lines).foldlM (addGroup lower floats) [] = some tree ∧ Shaped tree) ∧
      ((¬ ∀ group ∈ runs lines, Fits floats group) → (runs lines).foldlM (addGroup lower floats) [] = none) :=
    fun hheaders => Raises.foldlM_isSome_iff
      (fun tree htree group hgroup => addGroup_eq htree (hheaders group hgroup) (nil_not_mem_of_mem_runs hgroup))
      (shaped_of_plain fun _ _ => rfl)
  constructor
  · rintro ⟨hgroups, htree⟩
    refine ⟨(subGroupLines_eq_iff lines).1 hgroups, fun hheaders => ?_⟩
    by_contra hnot
    obtain ⟨json, hjson⟩ := htree hheaders
    rw [constructTreeOfLines, hgroups, (hloop hheaders).2 hnot] at hjson
    cases hjson
  · rintro ⟨htidy, hfits⟩
    have hgroups := (subGroupLines_eq_iff lines).2 htidy
    refine ⟨hgroups, fun hheaders => ?_⟩
    obtain ⟨tree, htree, hshaped⟩ := (hloop hheaders).1 (hfits hheaders)
    obtain ⟨json, hjson⟩ := hshaped.returned
    exact ⟨json, by rw [constructTreeOfLines, hgroups, htree, Option.bind_some, hjson]⟩

/-- Sizes of whole numbers. -/
def wholeSizes : Floats ℤ where
  ofText text := (readInt text).getD 0
  scale x k := x * 1024 ^ k
  trunc := some

/-- A blank line before a table: an empty group, and no tree. -/
theorem constructTree_blank :
    ¬ Right (List.map Char.toLower) wholeSizes ["".toList, "* Repo|Size|".toList, "* first|1KiB|".toList] ∧
    constructTreeOfLines (List.map Char.toLower) wholeSizes
      ["".toList, "* Repo|Size|".toList, "* first|1KiB|".toList] = none := by
  refine ⟨fun h => ?_, rfl⟩
  have htidy := (subGroupLines_eq_iff _).1 h.groups
  revert htidy
  decide

end BackupInfo
