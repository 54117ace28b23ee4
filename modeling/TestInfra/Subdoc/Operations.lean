import TestInfra.Subdoc.Paths
import Mathlib.Data.Countable.Basic

set_option autoImplicit false

/-! # Operations on the containers of a document

The `python_based_*` functions of `SubdocHelper` change a dictionary or a list in place, at a path. Which one is tried,
on which container and with what data, is drawn at random.

A function can fail quietly, with `None, None`, where there is nothing to delete or to replace. `Admits` says on which
containers some draw makes an operation succeed. -/

namespace TestInfra.SubdocHelper

open PyText Json

variable {α G P : Type}

/-! ## What is drawn -/

/-- `RandomDataGenerator`: what `gen_data` and `gen_data_no_json` make of a draw. -/
structure RandomData (α G P : Type) where
  genData : G → Text × Json α
  genDataNoJson : P → Json α

/-- The random choices of one round. -/
structure Draw (G P : Type) where
  key : ℕ
  operation : ℕ
  index : ℕ
  data : G
  plain : P

instance [Countable G] [Countable P] : Countable (Draw G P) := by
  refine Function.Injective.countable (f := fun d : Draw G P => (d.key, d.operation, d.index, d.data, d.plain)) ?_
  intro d e h
  rcases d with ⟨key, operation, index, data, plain⟩
  cases h
  rfl

instance [Nonempty G] [Nonempty P] : Nonempty (Draw G P) := by
  obtain ⟨data⟩ := ‹Nonempty G›
  obtain ⟨plain⟩ := ‹Nonempty P›
  exact ⟨⟨0, 0, 0, data, plain⟩⟩

/-- `random.choice(xs)`, of a list that is not empty. -/
def choice {β : Type} (xs : List β) (n : ℕ) : Option β := xs[n % xs.length]?

/-! ## The functions -/

/-- The `type` of `python_based_array_add`. -/
inductive AddType where
  | first
  | last
  | unique
  | insert
deriving DecidableEq, Repr

inductive ArrayOp where
  | add (type : AddType)
  | delete
  | replace
deriving DecidableEq, Repr

inductive DictOp where
  | add
  | upsertAdd
  | upsertReplace
  | delete
  | replace
deriving DecidableEq, Repr

inductive Operation where
  | array (op : ArrayOp)
  | dict (op : DictOp)
deriving DecidableEq, Repr

/-- What is done to a container. -/
inductive Edit (α : Type) where
  | insert (index : ℕ) (data : Json α)
  | append (data : Json α)
  | assign (index : ℕ) (data : Json α)
  | remove (index : ℕ)
  | store (field : Text) (data : Json α)
  | pop (field : Text)

/-- The container after the edit; `none` where it raises. -/
def Edit.run : Edit α → Json α → Option (Json α)
  | .insert index data, .list items => some (.list (items.take index ++ data :: items.drop index))
  | .append data, .list items => some (.list (items ++ [data]))
  | .assign index data, .list items => if index < items.length then some (.list (items.set index data)) else none
  | .remove index, .list items => if index < items.length then some (.list (items.eraseIdx index)) else none
  | .store field data, .dict items => some (.dict (Assoc.store field data items))
  | .pop field, .dict items =>
      if (Assoc.find field items).isSome then some (.dict (items.filter fun p => p.1 ≠ field)) else none
  | _, _ => none

/-- What a function does to the object it is given. -/
inductive Result (α : Type) where
  | raised
  /-- A dictionary would get an integer as a key: it is no JSON value any more. -/
  | intKey
  /-- It returns `None, None`. -/
  | unchanged
  | edited (edit : Edit α) (newPath : Text) (data : Option (Json α))

section Functions

variable [DecidableEq α] (rd : RandomData α G P) (draw : Draw G P) (path : Text)

/-- `python_based_array_add` of an object that is no list, with the texts that a loop over it finds. -/
def arrayAddTexts (type : AddType) (texts : List Text) : Result α :=
  match type with
  | .first => .raised
  | .last => .raised
  | .unique =>
      if texts.any fun element => pyEq (.str element) (rd.genDataNoJson draw.plain) then .unchanged else .raised
  | .insert => if texts.isEmpty then .unchanged else .raised

/-- `python_based_array_add` and the four functions that call it. -/
def pythonBasedArrayAdd (type : AddType) : Json α → Result α
  | .list items =>
      let data := rd.genDataNoJson draw.plain
      match type with
      | .first => .edited (.insert 0 data) path (some data)
      | .last => .edited (.append data) path (some data)
      | .unique =>
          if items.any fun element => findDataType .any element || pyEq element data then .unchanged
          else .edited (.append data) path (some data)
      | .insert =>
          let index := draw.index % items.length
          if items.isEmpty then .unchanged else .edited (.insert index data) (extend path (.index index)) (some data)
  | .dict items => arrayAddTexts rd draw type (items.map Prod.fst)
  | .str text => arrayAddTexts rd draw type (text.map fun c => [c])
  | .scalar _ => .raised

/-- `python_based_array_delete`. -/
def pythonBasedArrayDelete : Json α → Result α
  | .list items =>
      let index := draw.index % items.length
      if items.isEmpty then .unchanged else .edited (.remove index) (extend path (.index index)) none
  | .dict items => if items.isEmpty then .unchanged else .raised
  | .str text => if text.isEmpty then .unchanged else .raised
  | .scalar _ => .raised

/-- `python_based_array_replace`. -/
def pythonBasedArrayReplace : Json α → Result α
  | .list items =>
      let data := (rd.genData draw.data).2
      let index := draw.index % items.length
      if items.isEmpty then .unchanged else .edited (.assign index data) (extend path (.index index)) (some data)
  | .dict items => if items.isEmpty then .unchanged else .intKey
  | .str text => if text.isEmpty then .unchanged else .raised
  | .scalar _ => .raised

/-- `python_based_dict_add` and `python_based_dict_upsert_add`. -/
def pythonBasedDictAdd : Json α → Result α
  | .dict _ =>
      let (field, data) := rd.genData draw.data
      .edited (.store field data) (extend path (.key field)) (some data)
  | _ => .raised

/-- `python_based_dict_upsert_replace` and `python_based_dict_replace`. -/
def pythonBasedDictUpsertReplace : Json α → Result α
  | .dict items =>
      let data := (rd.genData draw.data).2
      match choice (items.map Prod.fst) draw.index with
      | none => .unchanged
      | some field => .edited (.store field data) (extend path (.key field)) (some data)
  | _ => .raised

/-- `python_based_dict_delete`. -/
def pythonBasedDictDelete : Json α → Result α
  | .dict items =>
      match choice (items.map Prod.fst) draw.index with
      | none => .unchanged
      | some field => .edited (.pop field) (extend path (.key field)) none
  | _ => .raised

/-- `getattr(self, operation["python"])`. -/
def pythonBased : Operation → Json α → Result α
  | .array (.add type) => pythonBasedArrayAdd rd draw path type
  | .array .delete => pythonBasedArrayDelete draw path
  | .array .replace => pythonBasedArrayReplace rd draw path
  | .dict .add => pythonBasedDictAdd rd draw path
  | .dict .upsertAdd => pythonBasedDictAdd rd draw path
  | .dict .upsertReplace => pythonBasedDictUpsertReplace rd draw path
  | .dict .delete => pythonBasedDictDelete draw path
  | .dict .replace => pythonBasedDictUpsertReplace rd draw path

end Functions

/-! ## Picking an operation -/

/-- What is picked for a container. -/
inductive Picked where
  /-- The `KeyError` of `array_ops[operation]`. -/
  | raised
  /-- `{"mutate": False}`. -/
  | noMutation
  | run (op : Operation)
deriving DecidableEq, Repr

/-- The keys of `array_ops`. -/
def arrayOps : List ArrayOp := [.add .first, .add .last, .add .unique, .add .insert, .delete, .replace]

/-- The keys of `dict_ops`. -/
def dictOps : List DictOp := [.add, .upsertAdd, .upsertReplace, .delete, .replace]

/-- `pick_array_operations`. -/
def pickArrayOperations (data : Json α) (operation : Option Operation) (n : ℕ) : Picked :=
  match data with
  | .list _ =>
      match operation with
      | none => match choice arrayOps n with
        | none => .raised
        | some op => .run (.array op)
      | some (.array op) => .run (.array op)
      | some (.dict _) => .raised
  | _ => .noMutation

/-- `pick_dict_operations`. -/
def pickDictOperations (data : Json α) (operation : Option Operation) (n : ℕ) : Picked :=
  match data with
  | .dict _ =>
      match operation with
      | none => match choice dictOps n with
        | none => .raised
        | some op => .run (.dict op)
      | some (.dict op) => .run (.dict op)
      | some (.array _) => .raised
  | _ => .noMutation

/-- `pick_operations`. -/
def pickOperations (data : Json α) (operation : Option Operation) (n : ℕ) : Picked :=
  match data with
  | .list _ => pickArrayOperations data operation n
  | .dict _ => pickDictOperations data operation n
  | _ => .noMutation

/-- The choice between the three by `mutation_operation_type`. -/
def pick (type : DataType) (data : Json α) (operation : Option Operation) (n : ℕ) : Picked :=
  match type with
  | .any => pickOperations data operation n
  | .dict => pickDictOperations data operation n
  | .array => pickArrayOperations data operation n

/-- A container that is collected from the document. -/
def Collected (type : DataType) (doc : Json α) (path : Text) (x : Json α) : Prop :=
  (findPairsDataType doc [] ∅ type).get? path = some x

/-! ## Changes in place -/

/-- The step that `data_set[..]` takes in a container. -/
def stepOf : Json α → Access → Option Step
  | .dict items, .key key => if (Assoc.find key items).isSome then some (.key key) else none
  | .list items, .index i =>
      if 0 ≤ i then (if i.toNat < items.length then some (.index i.toNat) else none)
      else if -(items.length : ℤ) ≤ i then some (.index (items.length + i).toNat) else none
  | _, _ => none

/-- The position of what the accesses lead to. A character of a text has none. -/
def locate : Json α → List Access → Option (List Step)
  | _, [] => some []
  | v, a :: accesses =>
      (stepOf v a).bind fun s => (v.child s).bind fun x => (locate x accesses).map (s :: ·)

/-- The functions that take the whole document when the path is empty. -/
def Operation.takesRoot : Operation → Bool
  | .dict _ => true
  | .array .delete => true
  | .array _ => false

/-- `modify_dataset`: the object to be changed. -/
def target (op : Operation) (dataSet : Json α) (path : Text) : Option (Json α) :=
  if path = [] ∧ op.takesRoot then some dataSet else parseAndGetData dataSet path

/-- Where it is. -/
def position (op : Operation) (dataSet : Json α) (path : Text) : Option (List Step) :=
  if path = [] ∧ op.takesRoot then some [] else (parsePath path).bind (locate dataSet)

/-- An entry of `operation_definition`, with what was done. -/
structure Definition (α : Type) where
  dataValue : Option (Json α)
  path : Text
  newPath : Text
  originalDataset : Json α
  mutatedDataSet : Json α
  operation : Operation
  edit : Edit α

/-- The document after the operation; `none` where it cannot be applied. -/
def Definition.apply (d : Definition α) (dataSet : Json α) : Option (Json α) :=
  (position d.operation dataSet d.path).bind fun p => dataSet.update d.edit.run p

/-- How a call `function(key, data_set)` ends. -/
inductive Outcome (α : Type) where
  | raised
  | intKey
  | unchanged
  | edited (definition : Definition α)

/-- `function(key, data_set)`. -/
def operate [DecidableEq α] (rd : RandomData α G P) (draw : Draw G P) (op : Operation) (dataSet : Json α)
    (path : Text) : Outcome α :=
  match target op dataSet path with
  | none => .raised
  | some object =>
      match pythonBased rd draw path op object with
      | .raised => .raised
      | .intKey => .intKey
      | .unchanged => .unchanged
      | .edited edit newPath data =>
          -- only objects that have a position are edited
          match (position op dataSet path).bind fun p => dataSet.update edit.run p with
          | none => .raised
          | some mutated => .edited ⟨data, path, newPath, dataSet, mutated, op, edit⟩

/-! ## What a path leads to has a position -/

theorem foldlM_getItem_str {text : Text} {accesses : List Access} {x : Json α}
    (h : accesses.foldlM getItem (.str text) = some x) : ∃ text', x = .str text' := by
  induction accesses generalizing text with
  | nil => exact ⟨text, (Option.some.inj h).symm⟩
  | cons a accesses ih =>
      rw [List.foldlM_cons] at h
      obtain ⟨y, hy, hrest⟩ := Option.bind_eq_some_iff.1 h
      rcases a with key | i
      · exact nomatch hy
      · obtain ⟨c, -, rfl⟩ := Option.map_eq_some_iff.1 hy
        exact ih hrest

theorem stepOf_of_getItem {v x : Json α} {a : Access} (h : getItem v a = some x) :
    (∃ text, v = .str text) ∨ ∃ s, stepOf v a = some s ∧ v.child s = some x := by
  rcases v with b | text | items | items
  · simp [getItem] at h
  · exact .inl ⟨text, rfl⟩
  · rcases a with key | i
    · simp [getItem] at h
    refine .inr ?_
    rw [getItem, pyIndex] at h
    by_cases hi : 0 ≤ i
    · rw [if_pos hi] at h
      have hlt := (List.getElem?_eq_some_iff.1 h).1
      refine ⟨.index i.toNat, ?_, h⟩
      rw [stepOf, if_pos hi, if_pos hlt]
    · rw [if_neg hi] at h
      by_cases hlow : -(items.length : ℤ) ≤ i
      · rw [if_pos hlow] at h
        refine ⟨.index (items.length + i).toNat, ?_, h⟩
        rw [stepOf, if_neg hi, if_pos hlow]
      · simp [hlow] at h
  · rcases a with key | i
    · have hfind : Assoc.find key items = some x := h
      refine .inr ⟨.key key, ?_, h⟩
      rw [stepOf, if_pos (Option.isSome_of_eq_some hfind)]
    · simp [getItem] at h

/-- A container that accesses lead to has a position. -/
theorem locate_of_foldlM {v x : Json α} {accesses : List Access} (h : accesses.foldlM getItem v = some x)
    (hx : findDataType .any x = true) : ∃ p, locate v accesses = some p ∧ v.get? p = some x := by
  induction accesses generalizing v with
  | nil => exact ⟨[], rfl, h⟩
  | cons a accesses ih =>
      rw [List.foldlM_cons] at h
      obtain ⟨y, hy, hrest⟩ := Option.bind_eq_some_iff.1 h
      rcases stepOf_of_getItem hy with ⟨text, rfl⟩ | ⟨s, hs, hchild⟩
      · rcases a with key | i
        · exact nomatch hy
        · obtain ⟨c, -, rfl⟩ := Option.map_eq_some_iff.1 hy
          obtain ⟨text', rfl⟩ := foldlM_getItem_str hrest
          exact absurd hx Bool.false_ne_true
      · obtain ⟨p, hp, hget⟩ := ih hrest
        refine ⟨s :: p, ?_, ?_⟩
        · rw [locate, hs, Option.bind_some, hchild, Option.bind_some, hp]
          rfl
        · rw [get?_cons, hchild, Option.bind_some, hget]

/-- A container to be changed has a position. -/
theorem position_of_target {op : Operation} {v x : Json α} {path : Text} (h : target op v path = some x)
    (hx : findDataType .any x = true) : ∃ p, position op v path = some p ∧ v.get? p = some x := by
  rw [target] at h
  rw [position]
  by_cases hroot : path = [] ∧ op.takesRoot
  · rw [if_pos hroot] at h ⊢
    exact ⟨[], rfl, h⟩
  · rw [if_neg hroot] at h ⊢
    obtain ⟨accesses, hparse, hfold⟩ := Option.bind_eq_some_iff.1 h
    obtain ⟨p, hp, hget⟩ := locate_of_foldlM hfold hx
    exact ⟨p, by rw [hparse, Option.bind_some, hp], hget⟩

theorem target_of_parse (op : Operation) {v x : Json α} {path : Text} (hne : path ≠ [])
    (h : parseAndGetData v path = some x) : target op v path = some x := by
  rw [target, if_neg fun h => hne h.1, h]

/-! ## Which operations succeed -/

/-- The operation is for containers of this kind. -/
def Fits : Operation → Json α → Prop
  | .array _, .list _ => True
  | .dict _, .dict _ => True
  | _, _ => False

theorem Fits.container {op : Operation} {x : Json α} (h : Fits op x) : findDataType .any x = true := by
  rcases op with op | op
  · rcases x with a | text | items | items
    · exact h.elim
    · exact h.elim
    · rfl
    · exact h.elim
  · rcases x with a | text | items | items
    · exact h.elim
    · exact h.elim
    · exact h.elim
    · rfl

/-- What is picked for a container: nothing for the other kind, and a forced operation only if it is of the kind. -/
inductive PickedFor (type : DataType) (x : Json α) (operation : Option Operation) : Picked → Prop where
  | noMutation (htype : findDataType type x = false) : PickedFor type x operation .noMutation
  | raised (htype : findDataType type x = true) (op : Operation) (hforce : operation = some op) (hnot : ¬ Fits op x) :
      PickedFor type x operation .raised
  | run (htype : findDataType type x = true) (op : Operation) (hfits : Fits op x)
      (hforce : ∀ forced, operation = some forced → op = forced) : PickedFor type x operation (.run op)

theorem choice_eq_none_iff {β : Type} {xs : List β} {n : ℕ} : choice xs n = none ↔ xs = [] := by
  rw [choice, List.getElem?_eq_none_iff]
  rcases xs with _ | ⟨x, xs⟩
  · exact ⟨fun _ => rfl, fun _ => Nat.zero_le _⟩
  · have hlt := Nat.mod_lt n (Nat.succ_pos xs.length)
    exact ⟨fun h => absurd h (Nat.not_le.2 hlt), fun h => nomatch h⟩

theorem choice_mem {β : Type} {xs : List β} {n : ℕ} {x : β} (h : choice xs n = some x) : x ∈ xs :=
  List.mem_of_getElem? h

theorem exists_choice {β : Type} {xs : List β} {x : β} (h : x ∈ xs) : ∃ n, choice xs n = some x := by
  obtain ⟨n, hn, rfl⟩ := List.mem_iff_getElem.1 h
  refine ⟨n, ?_⟩
  rw [choice, Nat.mod_eq_of_lt hn, List.getElem?_eq_getElem hn]

theorem exists_choice_of_ne_nil {β : Type} {xs : List β} (h : xs ≠ []) (n : ℕ) : ∃ x, choice xs n = some x := by
  rcases hx : choice xs n with _ | x
  · exact absurd (choice_eq_none_iff.1 hx) h
  · exact ⟨x, rfl⟩

theorem collected_of_choice {type : DataType} {doc x : Json α} {n : ℕ} {path : Text}
    (h : choice (findPairsDataType doc [] ∅ type).items n = some (path, x)) : Collected type doc path x :=
  (Dict.get?_eq_some_iff _ _ _).2 (choice_mem h)

theorem exists_choice_of_collected {type : DataType} {doc x : Json α} {path : Text} (h : Collected type doc path x) :
    ∃ n, choice (findPairsDataType doc [] ∅ type).items n = some (path, x) :=
  exists_choice ((Dict.get?_eq_some_iff _ _ _).1 h)

theorem not_collected_of_choice {type : DataType} {doc : Json α} {n : ℕ}
    (h : choice (findPairsDataType doc [] ∅ type).items n = none) : ∀ path x, ¬ Collected type doc path x := by
  intro path x hcollected
  have hmem := (Dict.get?_eq_some_iff _ _ _).1 hcollected
  rw [choice_eq_none_iff.1 h] at hmem
  exact List.not_mem_nil hmem

theorem choice_of_not_collected {type : DataType} {doc : Json α} {n : ℕ}
    (h : ∀ path x, ¬ Collected type doc path x) : choice (findPairsDataType doc [] ∅ type).items n = none := by
  rcases hchoice : choice (findPairsDataType doc [] ∅ type).items n with _ | ⟨path, x⟩
  · rfl
  · exact absurd (collected_of_choice hchoice) (h path x)

theorem pickArrayOperations_list {type : DataType} {items : List (Json α)}
    (htype : findDataType type (.list items) = true) (operation : Option Operation) (n : ℕ) :
    PickedFor type (.list items) operation (pickArrayOperations (.list items) operation n) := by
  rcases operation with _ | op | op
  · have hne : arrayOps ≠ [] := List.cons_ne_nil _ _
    obtain ⟨op, hop⟩ := exists_choice_of_ne_nil hne n
    have hpick : pickArrayOperations (.list items) none n = .run (.array op) := by
      simp only [pickArrayOperations, hop]
    rw [hpick]
    exact .run htype (.array op) trivial fun _ h => (nomatch h)
  · exact .run htype (.array op) trivial fun _ h => Option.some.inj h
  · exact .raised htype (.dict op) rfl id

theorem pickDictOperations_dict {type : DataType} {items : List (Text × Json α)}
    (htype : findDataType type (.dict items) = true) (operation : Option Operation) (n : ℕ) :
    PickedFor type (.dict items) operation (pickDictOperations (.dict items) operation n) := by
  rcases operation with _ | op | op
  · have hne : dictOps ≠ [] := List.cons_ne_nil _ _
    obtain ⟨op, hop⟩ := exists_choice_of_ne_nil hne n
    have hpick : pickDictOperations (.dict items) none n = .run (.dict op) := by
      simp only [pickDictOperations, hop]
    rw [hpick]
    exact .run htype (.dict op) trivial fun _ h => (nomatch h)
  · exact .raised htype (.array op) rfl id
  · exact .run htype (.dict op) trivial fun _ h => Option.some.inj h

theorem pick_pickedFor (type : DataType) (x : Json α) (operation : Option Operation) (n : ℕ) :
    PickedFor type x operation (pick type x operation n) := by
  rcases x with a | text | items | items
  · rcases type with _ | _ | _ <;> exact .noMutation rfl
  · rcases type with _ | _ | _ <;> exact .noMutation rfl
  · rcases type with _ | _ | _
    · exact pickArrayOperations_list rfl operation n
    · exact .noMutation rfl
    · exact pickArrayOperations_list rfl operation n
  · rcases type with _ | _ | _
    · exact pickDictOperations_dict rfl operation n
    · exact pickDictOperations_dict rfl operation n
    · exact .noMutation rfl

/-- A function edits the container, in a way that can be done, or returns `None, None`; the first where `p` holds. -/
structure Settles (r : Result α) (x : Json α) (p : Prop) : Prop where
  edits : p → ∃ edit newPath data, r = .edited edit newPath data ∧ (edit.run x).isSome
  unchanged : ¬ p → r = .unchanged

theorem settles_edited {edit : Edit α} {newPath : Text} {data : Option (Json α)} {x : Json α}
    (h : (edit.run x).isSome) : Settles (.edited edit newPath data) x True :=
  ⟨fun _ => ⟨edit, newPath, data, rfl, h⟩, fun hnot => absurd trivial hnot⟩

/-- An edit at a drawn index, unless the list is empty. -/
theorem settles_index {items : List (Json α)} {n : ℕ} (edit : ℕ → Edit α) (newPath : ℕ → Text)
    {data : Option (Json α)} (hrun : ∀ i < items.length, ((edit i).run (.list items)).isSome) :
    Settles (if items.isEmpty then .unchanged
      else .edited (edit (n % items.length)) (newPath (n % items.length)) data) (.list items) (items ≠ []) := by
  rcases items with _ | ⟨item, items⟩
  · exact ⟨fun h => absurd rfl h, fun _ => rfl⟩
  · have hlt := Nat.mod_lt n (Nat.succ_pos items.length)
    exact ⟨fun _ => ⟨_, _, _, rfl, hrun _ hlt⟩, fun h => absurd (List.cons_ne_nil item items) h⟩

/-- An edit at a drawn key, unless the dictionary is empty. -/
theorem settles_key {items : List (Text × Json α)} {n : ℕ} (edit : Text → Edit α) (newPath : Text → Text)
    {data : Option (Json α)} (hrun : ∀ field ∈ items.map Prod.fst, ((edit field).run (.dict items)).isSome) :
    Settles (match choice (items.map Prod.fst) n with
      | none => .unchanged
      | some field => .edited (edit field) (newPath field) data) (.dict items) (items ≠ []) := by
  rcases hfield : choice (items.map Prod.fst) n with _ | field
  · have hnil := List.map_eq_nil_iff.1 (choice_eq_none_iff.1 hfield)
    exact ⟨fun h => absurd hnil h, fun _ => rfl⟩
  · refine ⟨fun _ => ⟨_, _, _, rfl, hrun field (choice_mem hfield)⟩, fun hnil => ?_⟩
    rw [not_not.1 hnil] at hfield
    exact nomatch hfield

section Admits

variable [DecidableEq α] (rd : RandomData α G P)

theorem settles_unique {items : List (Json α)} {data : Json α} {path : Text} :
    Settles (if items.any fun element => findDataType .any element || pyEq element data then .unchanged
      else .edited (.append data) path (some data)) (.list items)
      (∀ element ∈ items, findDataType .any element = false ∧ pyEq element data = false) := by
  have hany : (items.any fun element => findDataType .any element || pyEq element data) = false
      ↔ ∀ element ∈ items, findDataType .any element = false ∧ pyEq element data = false := by
    rw [List.any_eq_false]
    exact forall₂_congr fun element _ => by rw [Bool.not_eq_true, Bool.or_eq_false_iff]
  rw [← hany]
  rcases items.any fun element => findDataType .any element || pyEq element data with _ | _
  · exact ⟨fun _ => ⟨_, _, _, rfl, rfl⟩, fun h => absurd rfl h⟩
  · exact ⟨fun h => absurd h.symm Bool.false_ne_true, fun _ => rfl⟩

/-- When an operation succeeds on a container. Only `array_add_unique` depends on what is drawn. -/
def Succeeds (plain : P) : Operation → Json α → Prop
  | .array (.add .first), .list _ => True
  | .array (.add .last), .list _ => True
  | .array (.add .unique), .list items =>
      ∀ element ∈ items, findDataType .any element = false ∧ pyEq element (rd.genDataNoJson plain) = false
  | .array _, .list items => items ≠ []
  | .dict .add, .dict _ => True
  | .dict .upsertAdd, .dict _ => True
  | .dict _, .dict items => items ≠ []
  | _, _ => False

/-- Some draw makes the operation succeed. -/
def Admits (op : Operation) (x : Json α) : Prop := ∃ plain, Succeeds rd plain op x

/-- On a container of its kind a function succeeds or returns `None, None`. -/
theorem pythonBased_settles (draw : Draw G P) (path : Text) {op : Operation} {x : Json α} (hfits : Fits op x) :
    Settles (pythonBased rd draw path op x) x (Succeeds rd draw.plain op x) := by
  rcases op with op | op
  · rcases x with a | text | items | items
    · exact hfits.elim
    · exact hfits.elim
    · rcases op with type | _ | _
      · rcases type with _ | _ | _ | _
        · exact settles_edited rfl
        · exact settles_edited rfl
        · exact settles_unique
        · exact settles_index (fun i => .insert i _) (fun i => extend path (.index i)) fun i _ => rfl
      · refine settles_index (fun i => .remove i) (fun i => extend path (.index i)) fun i hi => ?_
        rw [Edit.run, if_pos hi]
        rfl
      · refine settles_index (fun i => .assign i _) (fun i => extend path (.index i)) fun i hi => ?_
        rw [Edit.run, if_pos hi]
        rfl
    · exact hfits.elim
  · rcases x with a | text | items | items
    · exact hfits.elim
    · exact hfits.elim
    · exact hfits.elim
    · have hpop : ∀ field ∈ items.map Prod.fst, (Edit.run (.pop field) (.dict items)).isSome := by
        intro field hfield
        rw [Edit.run, if_pos ((Assoc.find_isSome_iff field items).2 hfield)]
        rfl
      rcases op with _ | _ | _ | _ | _
      · exact settles_edited rfl
      · exact settles_edited rfl
      · exact settles_key (fun field => .store field _) (fun field => extend path (.key field)) fun _ _ => rfl
      · exact settles_key (fun field => .pop field) (fun field => extend path (.key field)) hpop
      · exact settles_key (fun field => .store field _) (fun field => extend path (.key field)) fun _ _ => rfl

/-- Without a forced operation, the first of each kind can be picked, and it always succeeds. -/
theorem exists_pick_succeeds {type : DataType} {x : Json α} (htype : findDataType type x = true)
    {operation : Option Operation} (h : ∀ op, operation = some op → Fits op x ∧ Admits rd op x) [Nonempty P] :
    ∃ n op plain, pick type x operation n = .run op ∧ Succeeds rd plain op x := by
  obtain ⟨plain⟩ := ‹Nonempty P›
  rcases operation with _ | op
  · rcases x with a | text | items | items
    · exact absurd htype Bool.false_ne_true
    · exact absurd htype Bool.false_ne_true
    · refine ⟨0, .array (.add .first), plain, ?_, trivial⟩
      rcases type with _ | _ | _
      · rfl
      · exact absurd htype Bool.false_ne_true
      · rfl
    · refine ⟨0, .dict .add, plain, ?_, trivial⟩
      rcases type with _ | _ | _
      · rfl
      · rfl
      · exact absurd htype Bool.false_ne_true
  · obtain ⟨hfits, plain, hsucceeds⟩ := h op rfl
    have hpicked := pick_pickedFor type x (some op) 0
    rcases hpick : pick type x (some op) 0 with _ | _ | op'
    · rw [hpick] at hpicked
      rcases hpicked with _ | ⟨_, op', hop', hnot⟩ | _
      exact absurd (Option.some.inj hop' ▸ hfits) hnot
    · rw [hpick] at hpicked
      rcases hpicked with hnot | _ | _
      rw [htype] at hnot
      exact absurd hnot.symm Bool.false_ne_true
    · rw [hpick] at hpicked
      rcases hpicked with _ | _ | ⟨_, _, _, hforce⟩
      refine ⟨0, op, plain, ?_, hsucceeds⟩
      rw [hpick, hforce op rfl]

/-- A container to be changed is edited where it is, or not at all. -/
inductive Operated (draw : Draw G P) (op : Operation) (v : Json α) (path : Text) (x : Json α) : Outcome α → Prop where
  | edited (d : Definition α) (p : List Step) (hsucceeds : Succeeds rd draw.plain op x) (hpath : d.path = path)
      (hop : d.operation = op) (hposition : position op v path = some p) (hget : v.get? p = some x)
      (hedit : ∃ newPath data, pythonBased rd draw path op x = .edited d.edit newPath data)
      (hmutated : d.apply v = some d.mutatedDataSet) : Operated draw op v path x (.edited d)
  | unchanged (hnot : ¬ Succeeds rd draw.plain op x) : Operated draw op v path x .unchanged

theorem operate_operated (draw : Draw G P) {op : Operation} {v x : Json α} {path : Text}
    (htarget : target op v path = some x) (hfits : Fits op x) :
    Operated rd draw op v path x (operate rd draw op v path) := by
  obtain ⟨p, hp, hget⟩ := position_of_target htarget hfits.container
  have hsettles := pythonBased_settles rd draw path hfits
  by_cases hsucceeds : Succeeds rd draw.plain op x
  · obtain ⟨edit, newPath, data, hr, hrun⟩ := hsettles.edits hsucceeds
    obtain ⟨mutated, hmutated⟩ := Option.isSome_iff_exists.1 (update_isSome_iff.2 ⟨x, hget, hrun⟩)
    have happly : (position op v path).bind (fun p => v.update edit.run p) = some mutated := by
      rw [hp, Option.bind_some, hmutated]
    have hoperate : operate rd draw op v path = .edited ⟨data, path, newPath, v, mutated, op, edit⟩ := by
      simp only [operate, htarget, hr, happly]
    rw [hoperate]
    exact .edited _ p hsucceeds rfl rfl hp hget ⟨newPath, data, hr⟩ happly
  · have hoperate : operate rd draw op v path = .unchanged := by
      simp only [operate, htarget, hsettles.unchanged hsucceeds]
    rw [hoperate]
    exact .unchanged hsucceeds

end Admits

/-! ## Plain documents stay plain -/

/-- The random data have plain keys. -/
structure PlainData (rd : RandomData α G P) : Prop where
  field : ∀ g, PlainKey (rd.genData g).1
  data : ∀ g, Plain (rd.genData g).2
  noJson : ∀ p, Plain (rd.genDataNoJson p)

def Edit.IsPlain : Edit α → Prop
  | .insert _ data => Plain data
  | .append data => Plain data
  | .assign _ data => Plain data
  | .remove _ => True
  | .store field data => PlainKey field ∧ Plain data
  | .pop _ => True

theorem Edit.IsPlain.run {edit : Edit α} (hedit : edit.IsPlain) {x y : Json α} (hx : Plain x)
    (h : edit.run x = some y) : Plain y := by
  rcases x with a | text | items | items
  · rcases edit <;> exact nomatch h
  · rcases edit <;> exact nomatch h
  · rcases edit with ⟨i, data⟩ | data | ⟨i, data⟩ | i | ⟨field, data⟩ | field
    · rw [← Option.some.inj h]
      refine plain_list_of_mem hx hedit fun z hz => ?_
      rcases List.mem_append.1 hz with hz | hz
      · exact .inl (List.mem_of_mem_take hz)
      · exact (List.mem_cons.1 hz).symm.imp_left List.mem_of_mem_drop
    · rw [← Option.some.inj h]
      refine plain_list_of_mem hx hedit fun z hz => ?_
      exact (List.mem_append.1 hz).imp_right List.mem_singleton.1
    · rw [Edit.run] at h
      split at h
      · rw [← Option.some.inj h]
        exact plain_list_of_mem hx hedit fun z hz => List.mem_or_eq_of_mem_set hz
      · exact nomatch h
    · rw [Edit.run] at h
      split at h
      · rw [← Option.some.inj h]
        exact plain_list_iff.2 fun z hz => plain_list_iff.1 hx z (List.mem_of_mem_eraseIdx hz)
      · exact nomatch h
    · exact nomatch h
    · exact nomatch h
  · rcases edit with ⟨i, data⟩ | data | ⟨i, data⟩ | i | ⟨field, data⟩ | field
    · exact nomatch h
    · exact nomatch h
    · exact nomatch h
    · exact nomatch h
    · rw [← Option.some.inj h]
      exact plain_store hx hedit.1 hedit.2
    · rw [Edit.run] at h
      split at h
      · rw [← Option.some.inj h]
        obtain ⟨hnodup, hitems⟩ := plain_dict_iff.1 hx
        exact plain_dict_iff.2 ⟨hnodup.sublist (List.filter_sublist.map _),
          fun p hp => hitems p (List.mem_of_mem_filter hp)⟩
      · exact nomatch h

/-- A result whose edit, if there is one, is plain. -/
def Result.IsPlain (r : Result α) : Prop := ∀ edit newPath data, r = .edited edit newPath data → edit.IsPlain

theorem isPlain_edited (edit : Edit α) (h : edit.IsPlain) (newPath : Text) (data : Option (Json α)) :
    (Result.edited edit newPath data).IsPlain := by
  rintro _ _ _ ⟨⟩
  exact h

theorem isPlain_unchanged : (Result.unchanged : Result α).IsPlain := fun _ _ _ h => (nomatch h)

theorem isPlain_ite {p : Prop} [Decidable p] {r r' : Result α} (h : r.IsPlain) (h' : r'.IsPlain) :
    (if p then r else r').IsPlain := by
  split
  · exact h
  · exact h'

theorem isPlain_key {xs : List Text} {n : ℕ} (edit : Text → Edit α) (h : ∀ field ∈ xs, (edit field).IsPlain)
    (newPath : Text → Text) (data : Option (Json α)) :
    Result.IsPlain (match choice xs n with
      | none => .unchanged
      | some field => .edited (edit field) (newPath field) data) := by
  rcases hfield : choice xs n with _ | field
  · exact isPlain_unchanged
  · exact isPlain_edited _ (h field (choice_mem hfield)) _ _

theorem pythonBased_isPlain [DecidableEq α] {rd : RandomData α G P} (hrd : PlainData rd) (draw : Draw G P) (path : Text)
    {op : Operation} {x : Json α} (hfits : Fits op x) (hx : Plain x) : (pythonBased rd draw path op x).IsPlain := by
  have hdata := hrd.data draw.data
  have hnoJson := hrd.noJson draw.plain
  rcases op with op | op
  · rcases x with a | text | items | items
    · exact hfits.elim
    · exact hfits.elim
    · rcases op with type | _ | _
      · rcases type with _ | _ | _ | _
        · exact isPlain_edited (.insert 0 _) hnoJson _ _
        · exact isPlain_edited (.append _) hnoJson _ _
        · exact isPlain_ite isPlain_unchanged (isPlain_edited (.append _) hnoJson _ _)
        · exact isPlain_ite isPlain_unchanged (isPlain_edited (.insert _ _) hnoJson _ _)
      · exact isPlain_ite isPlain_unchanged (isPlain_edited (.remove _) trivial _ _)
      · exact isPlain_ite isPlain_unchanged (isPlain_edited (.assign _ _) hdata _ _)
    · exact hfits.elim
  · rcases x with a | text | items | items
    · exact hfits.elim
    · exact hfits.elim
    · exact hfits.elim
    · have hkeys : ∀ field ∈ items.map Prod.fst, PlainKey field := by
        rw [List.forall_mem_map]
        exact fun p hp => ((plain_dict_iff.1 hx).2 p hp).1
      have hadd : (pythonBasedDictAdd rd draw path (.dict items)).IsPlain :=
        isPlain_edited (.store _ _) ⟨hrd.field draw.data, hdata⟩ _ _
      have hreplace : (pythonBasedDictUpsertReplace rd draw path (.dict items)).IsPlain :=
        isPlain_key (fun field => .store field _) (fun field hfield => ⟨hkeys field hfield, hdata⟩) _ _
      rcases op with _ | _ | _ | _ | _
      · exact hadd
      · exact hadd
      · exact hreplace
      · exact isPlain_key (fun field => .pop field) (fun _ _ => trivial) _ _
      · exact hreplace

/-- Each path collected leads to the container collected with it. -/
def Readable (type : DataType) (doc : Json α) : Prop :=
  ∀ path x, Collected type doc path x → path ≠ [] ∧ parseAndGetData doc path = some x

theorem Plain.collected {type : DataType} {doc x : Json α} {path : Text} (hdoc : Plain doc)
    (h : Collected type doc path x) : findDataType .any x = true ∧
      ∃ p, p ≠ [] ∧ (∀ s ∈ p, PlainStep s) ∧ render p = path ∧ doc.get? p = some x := by
  obtain ⟨⟨p, _⟩, hn, hkept, rfl, rfl⟩ := (get?_collect_iff (nodup_render hdoc.wellFormed hdoc.plainKeys)).1 h
  obtain ⟨hne, hget⟩ := (mem_nodes_iff hdoc.wellFormed).1 hn
  refine ⟨?_, p, hne, plainStep_of_mem_nodes hdoc.plainKeys hn, rfl, hget⟩
  rw [kept_iff] at hkept
  split at hkept
  · exact findDataType_any hkept
  · exact hkept

theorem Plain.readable {doc : Json α} (hdoc : Plain doc) (type : DataType) : Readable type doc := by
  intro path x h
  obtain ⟨-, p, hne, hsteps, rfl, hget⟩ := hdoc.collected h
  obtain ⟨init, last, hreads⟩ := Reads.of_plain hsteps hne
  exact ⟨hreads.render_ne_nil, parseAndGetData_render hsteps hne hget⟩

end TestInfra.SubdocHelper
