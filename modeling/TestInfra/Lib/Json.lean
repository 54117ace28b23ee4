import TestInfra.Lib.Dict
import TestInfra.Lib.PyText

set_option autoImplicit false

/-! # JSON values

What `json.loads` makes: dictionaries, lists and texts over a type of scalars. The scalars stand for the numbers,
the booleans and `None` up to Python's `==`, so equality on them is what `==` says of them.

Values are taken apart by `Json.induct`, and computed with by `Json.fold`. -/

open PyText

inductive Json (α : Type*) where
  | scalar (a : α)
  | str (text : Text)
  | list (items : List (Json α))
  | dict (items : List (Text × Json α))

namespace Json

variable {α β γ : Type*}

/-! ## Induction and recursion -/

/-- What holds of a value whenever it holds of its items holds of every value. -/
@[elab_as_elim] theorem induct {motive : Json α → Prop} (scalar : ∀ a, motive (.scalar a))
    (str : ∀ text, motive (.str text)) (list : ∀ items, (∀ x ∈ items, motive x) → motive (.list items))
    (dict : ∀ items, (∀ p ∈ items, motive p.2) → motive (.dict items)) (v : Json α) : motive v :=
  @Json.rec α motive (fun items => ∀ x ∈ items, motive x) (fun items => ∀ p ∈ items, motive p.2)
    (fun p => motive p.2) scalar str list dict (fun _ h => absurd h List.not_mem_nil)
    (fun _ _ h hs => List.forall_mem_cons.2 ⟨h, hs⟩) (fun _ h => absurd h List.not_mem_nil)
    (fun _ _ h hs => List.forall_mem_cons.2 ⟨h, hs⟩) (fun _ _ h => h) v

section Fold

variable (scalar : α → β) (str : Text → β) (list : List β → β) (dict : List (Text × β) → β)

mutual

/-- Compute with a value from its items up. -/
def fold : Json α → β
  | .scalar a => scalar a
  | .str text => str text
  | .list items => list (foldList items)
  | .dict items => dict (foldItems items)

def foldList : List (Json α) → List β
  | [] => []
  | x :: items => fold x :: foldList items

def foldItems : List (Text × Json α) → List (Text × β)
  | [] => []
  | (key, x) :: items => (key, fold x) :: foldItems items

end

theorem fold_list (items : List (Json α)) :
    fold scalar str list dict (.list items) = list (items.map (fold scalar str list dict)) := by
  have hlist : foldList scalar str list dict items = items.map (fold scalar str list dict) := by
    induction items with
    | nil => rfl
    | cons x items ih => rw [foldList, ih, List.map_cons]
  rw [fold, hlist]

theorem fold_dict (items : List (Text × Json α)) :
    fold scalar str list dict (.dict items)
      = dict (items.map fun p => (p.1, fold scalar str list dict p.2)) := by
  have hitems : foldItems scalar str list dict items
      = items.map fun p => (p.1, fold scalar str list dict p.2) := by
    induction items with
    | nil => rfl
    | cons p items ih => rw [foldItems, ih, List.map_cons]
  rw [fold, hitems]

end Fold

/-- The value with other scalars. -/
def mapScalars (f : α → β) : Json α → Json β := fold (fun a => .scalar (f a)) .str .list .dict

@[simp] theorem mapScalars_scalar (f : α → β) (a : α) : mapScalars f (.scalar a) = .scalar (f a) := rfl

@[simp] theorem mapScalars_str (f : α → β) (text : Text) : mapScalars f (.str text) = .str text := rfl

@[simp] theorem mapScalars_list (f : α → β) (items : List (Json α)) :
    mapScalars f (.list items) = .list (items.map (mapScalars f)) := fold_list ..

@[simp] theorem mapScalars_dict (f : α → β) (items : List (Text × Json α)) :
    mapScalars f (.dict items) = .dict (items.map fun p => (p.1, mapScalars f p.2)) := fold_dict ..

/-- No dictionary has a key twice. -/
def WellFormed : Json α → Prop :=
  fold (fun _ => True) (fun _ => True) (fun items => ∀ h ∈ items, h)
    (fun items => (items.map Prod.fst).Nodup ∧ ∀ p ∈ items, p.2)

@[simp] theorem wellFormed_scalar (a : α) : WellFormed (.scalar a) := trivial

@[simp] theorem wellFormed_str (text : Text) : WellFormed (.str text : Json α) := trivial

theorem wellFormed_list_iff {items : List (Json α)} :
    WellFormed (.list items) ↔ ∀ x ∈ items, WellFormed x := by
  rw [WellFormed, fold_list, List.forall_mem_map]

theorem wellFormed_dict_iff {items : List (Text × Json α)} :
    WellFormed (.dict items) ↔ (items.map Prod.fst).Nodup ∧ ∀ p ∈ items, WellFormed p.2 := by
  rw [WellFormed, fold_dict, List.forall_mem_map, List.map_map]
  exact Iff.rfl

theorem WellFormed.mapScalars {v : Json α} (h : WellFormed v) (f : α → β) : WellFormed (mapScalars f v) := by
  induction v using induct with
  | scalar a => trivial
  | str text => trivial
  | list items ih =>
      rw [wellFormed_list_iff] at h
      rw [mapScalars_list, wellFormed_list_iff, List.forall_mem_map]
      exact fun x hx => ih x hx (h x hx)
  | dict items ih =>
      obtain ⟨hnodup, h⟩ := wellFormed_dict_iff.1 h
      rw [mapScalars_dict, wellFormed_dict_iff, List.map_map, List.forall_mem_map]
      exact ⟨hnodup, fun p hp => ih p hp (h p hp)⟩

/-! ## Equality -/

section Equality

variable [DecidableEq α]

mutual

/-- `a == b`. The order of a dictionary does not count. -/
def pyEq : Json α → Json α → Bool
  | scalar a, scalar b => a = b
  | str s, str t => s = t
  | list xs, list ys => pyEqList xs ys
  | dict xs, dict ys => xs.length = ys.length && pyEqItems xs ys
  | _, _ => false

def pyEqList : List (Json α) → List (Json α) → Bool
  | [], [] => true
  | x :: xs, y :: ys => pyEq x y && pyEqList xs ys
  | _, _ => false

/-- The second dictionary has the items of the first. -/
def pyEqItems : List (Text × Json α) → List (Text × Json α) → Bool
  | [], _ => true
  | (key, x) :: xs, ys => (Assoc.find key ys).any (pyEq x) && pyEqItems xs ys

end

theorem pyEqItems_iff {xs ys : List (Text × Json α)} :
    pyEqItems xs ys = true ↔ ∀ p ∈ xs, ∃ y, Assoc.find p.1 ys = some y ∧ pyEq p.2 y = true := by
  induction xs with
  | nil => exact ⟨fun _ _ h => absurd h List.not_mem_nil, fun _ => rfl⟩
  | cons p xs ih =>
      rw [pyEqItems, Bool.and_eq_true, ih, List.forall_mem_cons, Option.any_eq_true]

/-- Every value equals itself. -/
theorem pyEq_self {v : Json α} (h : WellFormed v) : pyEq v v = true := by
  induction v using induct with
  | scalar a => simp [pyEq]
  | str text => simp [pyEq]
  | list items ih =>
      rw [wellFormed_list_iff] at h
      rw [pyEq]
      induction items with
      | nil => rfl
      | cons x items ihitems =>
          rw [List.forall_mem_cons] at h ih
          rw [pyEqList, ih.1 h.1, ihitems ih.2 h.2]
          rfl
  | dict items ih =>
      obtain ⟨hnodup, h⟩ := wellFormed_dict_iff.1 h
      rw [pyEq, Bool.and_eq_true, decide_eq_true_eq, pyEqItems_iff]
      exact ⟨rfl, fun p hp => ⟨p.2, (Assoc.find_eq_some_iff p.1 p.2 items hnodup).2 hp, ih p hp (h p hp)⟩⟩

end Equality

end Json
