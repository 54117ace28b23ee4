import TestInfra.Lib.Json
import TestInfra.Lib.PyText

set_option autoImplicit false

/-! # The attributes of a schema

`TuqGenerators.__init__` (`lib/couchbase_helper/tuq_generators.py`): the attributes of the first document by the types
of their values, under the names that the placeholders of a query template have. -/

open PyText

namespace Tuq

/-! ## Documents -/

/-- The scalars, by what `isinstance` tells of them. -/
inductive Scalar where
  | int
  | float
  | bool
  | null
  deriving DecidableEq

abbrev Field := Json Scalar

def isStr : Field → Bool
  | .str _ => true
  | _ => false

/-- A boolean is an `int` as well. -/
def isInt : Field → Bool
  | .scalar .int => true
  | .scalar .bool => true
  | _ => false

def isFloat : Field → Bool
  | .scalar .float => true
  | _ => false

def isBool : Field → Bool
  | .scalar .bool => true
  | _ => false

def isList : Field → Bool
  | .list _ => true
  | _ => false

def isDict : Field → Bool
  | .dict _ => true
  | _ => false

/-- `isinstance(value, list) and p(value[0])`. -/
def isListOf (p : Field → Bool) : Field → Bool
  | .list (first :: _) => p first
  | _ => false

/-- A list without a first item, on which `value[0]` is an `IndexError`. -/
def isEmptyList : Field → Bool
  | .list [] => true
  | _ => false

/-- A dictionary written with the items: of the same key the last one counts. -/
def dictOf (items : List (Text × Field)) : Dict Text Field := items.foldl (fun dict item => dict.set item.1 item.2) ∅

def fieldsOf : Field → Dict Text Field
  | .dict items => dictOf items
  | _ => ∅

def firstOf : Field → Field
  | .list (first :: _) => first
  | value => value

mutual

/-- What the generator in `_all_nested_objects` yields: the paths to what is no dictionary. -/
def nestedItems : List (Text × Field) → List (Text × Field)
  | [] => []
  | (key, value) :: items => nestedValue key value ++ nestedItems items

def nestedValue (key : Text) : Field → List (Text × Field)
  | .dict items => (dictOf (nestedItems items)).items.map fun entry => (key ++ '.' :: entry.1, entry.2)
  | value => [(key, value)]

end

/-- `_all_nested_objects`. -/
def allNestedObjects (d : Dict Text Field) : Dict Text Field := dictOf (nestedItems d.items)

/-! ## The attributes by type -/

/-- `[attr[0] for attr in d.items() if p(attr)]`. -/
def attrs (p : Text × Field → Bool) (d : Dict Text Field) : List Text := (d.items.filter p).map Prod.fst

/-- `'%s%s%s' % (start, i, stop)`. -/
def numbered (start : Text) (i : ℕ) (stop : Text) : Text := start ++ (toString i).toList ++ stop

/-- The attributes of the objects in a list of attributes. -/
def ofObjects (start : Text) (objects : List Text) (fields : Text → Dict Text Field) : List (Text × List Text) :=
  objects.flatMap fun obj =>
    [(numbered start (objects.idxOf obj) "_str".toList, attrs (fun attr => isStr attr.2) (fields obj)),
      (numbered start (objects.idxOf obj) "_int".toList, attrs (fun attr => isInt attr.2) (fields obj))]

/-- The entries of `type_args` as they are written. -/
def typeEntries (doc : Dict Text Field) : List (Text × List Text) :=
  let nests := allNestedObjects doc
  let field (obj : Text) : Field := (doc.get? obj).getD (.dict [])
  let listObj := attrs (fun attr => isListOf isDict attr.2) doc
  let obj := attrs (fun attr => isDict attr.2) doc
  let depth (attr : Text) : ℕ := (attr.splitOn '.').length
  [("str".toList, attrs (fun attr => isStr attr.2) doc),
    ("int".toList, attrs (fun attr => isInt attr.2) doc),
    ("float".toList, attrs (fun attr => isFloat attr.2) doc),
    ("bool".toList, attrs (fun attr => isBool attr.2) doc),
    ("list_str".toList, attrs (fun attr => isListOf isStr attr.2) doc),
    ("list_int".toList, attrs (fun attr => isListOf isInt attr.2) doc),
    ("list_obj".toList, listObj),
    ("obj".toList, obj)] ++
  ofObjects "_obj".toList obj (fun name => fieldsOf (field name)) ++
  ofObjects "_list_obj".toList listObj (fun name => fieldsOf (firstOf (field name))) ++
  [2, 3, 4].map (fun i => (numbered "nested_".toList i "l".toList, attrs (fun attr => depth attr.1 = i) nests)) ++
  [2, 3, 4].map fun i =>
    (numbered "nested_list_".toList i "l".toList, attrs (fun attr => depth attr.1 = i && isList attr.2) nests)

/-- `__init__` on the first document; `none` is the `IndexError` of an empty list. -/
def initTypeArgs (doc : Dict Text Field) : Option (Dict Text (List Text)) :=
  if doc.items.any fun attr => isEmptyList attr.2 then none
  else some ((typeEntries doc).foldl (fun typeArgs entry => typeArgs.set entry.1 entry.2) ∅)

/-! ## What the entries are -/

/-- The name of a type does not end in a digit, and no attribute of it is there twice. -/
structure Named (entry : Text × List Text) : Prop where
  last : ∃ c, entry.1.getLast? = some c ∧ c.isDigit = false
  nodup : entry.2.Nodup

theorem nodup_attrs (p : Text × Field → Bool) (d : Dict Text Field) : (attrs p d).Nodup :=
  d.nodup_keys.sublist (List.filter_sublist.map Prod.fst)

theorem getLast?_numbered (start : Text) (i : ℕ) {stop : Text} {c : Char} (h : stop.getLast? = some c) :
    (numbered start i stop).getLast? = some c := by
  rw [numbered, List.getLast?_append, h]
  rfl

theorem named_of_mem_typeEntries {doc : Dict Text Field} : ∀ entry ∈ typeEntries doc, Named entry := by
  have hobjects (start : Text) (objects : List Text) (fields : Text → Dict Text Field) :
      ∀ entry ∈ ofObjects start objects fields, Named entry := by
    intro entry hentry
    obtain ⟨obj, -, hentry⟩ := List.mem_flatMap.1 hentry
    rcases List.mem_pair.1 hentry with rfl | rfl
    · exact ⟨⟨'r', getLast?_numbered _ _ rfl, rfl⟩, nodup_attrs ..⟩
    · exact ⟨⟨'t', getLast?_numbered _ _ rfl, rfl⟩, nodup_attrs ..⟩
  intro entry hentry
  simp only [typeEntries, List.mem_append] at hentry
  rcases hentry with (((hfixed | hobj) | hlist) | hnested) | hnested
  · have hnodup : entry.2.Nodup := by
      simp only [List.mem_cons, List.not_mem_nil, or_false] at hfixed
      rcases hfixed with rfl | rfl | rfl | rfl | rfl | rfl | rfl | rfl
      all_goals exact nodup_attrs ..
    refine ⟨?_, hnodup⟩
    simp only [List.mem_cons, List.not_mem_nil, or_false] at hfixed
    rcases hfixed with rfl | rfl | rfl | rfl | rfl | rfl | rfl | rfl
    all_goals exact ⟨_, rfl, rfl⟩
  · exact hobjects _ _ _ entry hobj
  · exact hobjects _ _ _ entry hlist
  · obtain ⟨i, -, rfl⟩ := List.mem_map.1 hnested
    exact ⟨⟨'l', getLast?_numbered _ _ rfl, rfl⟩, nodup_attrs ..⟩
  · obtain ⟨i, -, rfl⟩ := List.mem_map.1 hnested
    exact ⟨⟨'l', getLast?_numbered _ _ rfl, rfl⟩, nodup_attrs ..⟩

/-- So are the entries of the dictionary. -/
theorem named_of_init {doc : Dict Text Field} {typeArgs : Dict Text (List Text)}
    (h : initTypeArgs doc = some typeArgs) : ∀ entry ∈ typeArgs.items, Named entry := by
  intro entry hentry
  rw [initTypeArgs] at h
  split at h
  · cases h
  · obtain rfl := Option.some.inj h
    rcases Dict.mem_items_foldl_set hentry with hentry | hentry
    · exact named_of_mem_typeEntries entry hentry
    · exact absurd hentry List.not_mem_nil

end Tuq
