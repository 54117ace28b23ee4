import TestInfra.Lib.JsonText
import TestInfra.Lib.Percent

set_option autoImplicit false

/-! # The configuration of mixed builds

The dispatcher writes the configuration of a columnar test into the parameters of the job with a serializer of its
own, `flatten_param_to_str`, and `populateIni` reads it back with `json.loads`. The serializer puts a comma behind
each leaf and takes the last one off again. A nested dictionary or list is put in as it is: in a dictionary its key
is lost, and in a list the comma behind it.

`Survives` is the trip, and `Flat` the values that survive it (`survives_iff`). Either a text is what `json.dumps`
would have written, or it weighs less than the value. -/

namespace TestInfra.Dispatcher

open PyText Json JsonText Percent

/-! ## The two scripts -/

/-- `isinstance(value, dict) or isinstance(value, list)`. -/
def isContainer : Json ℤ → Bool
  | .list _ => true
  | .dict _ => true
  | _ => false

/-- A leaf of a dictionary: the number it reads as, or the text in quotes. -/
def leafText : Json ℤ → Text
  | .scalar i => intText i
  | .str text =>
      match readInt text with
      | some i => intText i
      | none => quoted text
  | _ => []

/-- `'%s' % value` of a leaf. -/
def strOf : Json ℤ → Text
  | .scalar i => intText i
  | .str text => text
  | _ => []

mutual

/-- `flatten_param_to_str`. -/
def flattenParamToStr : Json ℤ → Text
  | .dict items => rstrip (· = ',') ('\x7b' :: flattenItems items) ++ ['\x7d']
  | .list items => rstrip (· = ',') ('[' :: flattenValues items) ++ [']']
  | _ => []

/-- The loop over the items of a dictionary. -/
def flattenItems : List (Text × Json ℤ) → Text
  | [] => []
  -- a nested value comes without its key, and without a comma
  | (key, val) :: items =>
      (if isContainer val then flattenParamToStr val else quoted key ++ ':' :: leafText val ++ [',']) ++
        flattenItems items

/-- The loop over the values of a list. -/
def flattenValues : List (Json ℤ) → Text
  | [] => []
  | val :: items =>
      (if isContainer val then flattenParamToStr val else quoted (strOf val) ++ [',']) ++ flattenValues items

end

/-- The parameter that `populate_required_dispatcher_data` makes of the configuration in the document, if any. -/
def mixedBuildParam (component : Text) (config : Option (Json ℤ)) : Text :=
  let mixedBuildConfig := if component = "columnar".toList then config.getD (.dict []) else .dict []
  quote (flattenParamToStr mixedBuildConfig)

/-- How `populateIni` reads the parameter. -/
def readMixedBuild {α : Type} (sc : Scalars α) (param : Text) : Option (Json α) := loads sc (unquote param)

/-! ## The values that survive -/

/-- A structure of dictionaries and lists: numbers only in the dictionaries, no text that needs an escape, and none
    in a dictionary that reads as a number. Of the keys nothing is asked but that no two are the same. -/
inductive Nested : Json ℤ → Prop
  | dict {items : List (Text × Json ℤ)} (nodup : (items.map Prod.fst).Nodup)
      (texts : ∀ p ∈ items, ∀ text, p.2 = .str text → Plain text ∧ readInt text = none)
      (nested : ∀ p ∈ items, isContainer p.2 = true → Nested p.2) : Nested (.dict items)
  | list {items : List (Json ℤ)} (scalars : ∀ x ∈ items, ∀ i, x ≠ .scalar i)
      (texts : ∀ x ∈ items, ∀ text, x = .str text → Plain text)
      (nested : ∀ x ∈ items, isContainer x = true → Nested x) : Nested (.list items)

/-- No dictionary has a nested value or a key that needs an escape, and in a list only the last value is nested. -/
inductive Flat : Json ℤ → Prop
  | dict {items : List (Text × Json ℤ)} (leaves : ∀ p ∈ items, Plain p.1 ∧ isContainer p.2 = false) :
      Flat (.dict items)
  | list {items : List (Json ℤ)} (leaves : ∀ x ∈ items, isContainer x = false) : Flat (.list items)
  | listLast {items : List (Json ℤ)} {last : Json ℤ} (leaves : ∀ x ∈ items, isContainer x = false)
      (flat : Flat last) : Flat (.list (items ++ [last]))

theorem Flat.cons {x : Json ℤ} {items : List (Json ℤ)} (hx : isContainer x = false) (h : Flat (.list items)) :
    Flat (.list (x :: items)) := by
  cases h with
  | list leaves => exact .list (List.forall_mem_cons.2 ⟨hx, leaves⟩)
  | listLast leaves flat =>
      have hall := Flat.listLast (List.forall_mem_cons.2 ⟨hx, leaves⟩) flat
      rwa [List.cons_append] at hall

/-! ## The comma at the end -/

theorem rstrip_concat_of_pos {p : Char → Bool} {c : Char} (h : p c = true) (text : Text) :
    rstrip p (text ++ [c]) = rstrip p text := by
  rw [rstrip, List.reverse_append, List.reverse_singleton, List.singleton_append, List.dropWhile_cons_of_pos h, rstrip]

theorem rstrip_concat_of_neg {p : Char → Bool} {c : Char} (h : p c = false) (text : Text) :
    rstrip p (text ++ [c]) = text ++ [c] := by
  rw [rstrip, List.reverse_append, List.reverse_singleton, List.singleton_append,
    List.dropWhile_cons_of_neg (by rw [h]; exact Bool.false_ne_true), List.reverse_cons, List.reverse_reverse]

theorem weigh_rstrip_le (p : Char → Bool) (text : Text) : weigh (rstrip p text) ≤ weigh text := by
  have hsub : (rstrip p text).Sublist text.reverse.reverse :=
    (List.dropWhile_sublist p).reverse
  rw [List.reverse_reverse] at hsub
  exact hsub.countP_le

/-! ## What a flattened value weighs -/

theorem weigh_quoted (text : Text) : weigh (quoted text) = 2 + weigh text := by
  have hquote : weigh ['"'] = 1 := by decide
  rw [quoted, List.cons_append, weigh_cons, weigh_append, hquote]
  omega

theorem weigh_intText (i : ℤ) : weigh (intText i) = 0 := by
  have hdigits : ∀ n : ℕ, weigh (toString n).toList = 0 := by
    intro n
    rw [weigh, List.countP_eq_zero]
    intro c hc
    simp [isNumeric, isDigit_of_mem c hc]
  have hsign : weigh ['-'] = 0 := by decide
  rw [intText]
  split
  · rw [weigh_cons, hsign, hdigits]
  · exact hdigits _

theorem weigh_le_cost (text : Text) : weigh text ≤ cost text := Nat.le_add_right ..

theorem cost_eq_weigh_iff (text : Text) : cost text = weigh text ↔ Plain text := by
  rw [cost, Nat.add_eq_left, List.countP_eq_zero]
  exact forall₂_congr fun c _ => by rw [Bool.not_eq_true]

/-- A leaf of a dictionary is written without loss, except for an escape in its key. -/
theorem weigh_leaf {p : Text × Json ℤ} (hp : isContainer p.2 = false)
    (htext : ∀ text, p.2 = .str text → Plain text ∧ readInt text = none) :
    weigh (quoted p.1 ++ ':' :: leafText p.2) = 3 + weigh p.1 + weight p.2 := by
  have hcolon : weigh [':'] = 1 := by decide
  have hleaf : weigh (leafText p.2) = weight p.2 := by
    obtain ⟨key, val⟩ := p
    rcases val with i | text | _ | _
    · exact weigh_intText i
    · obtain ⟨hplain, hread⟩ := htext text rfl
      rw [leafText, hread]
      show weigh (quoted text) = 2 + cost text
      rw [weigh_quoted, (cost_eq_weigh_iff text).2 hplain]
    · cases hp
    · cases hp
  rw [weigh_append, weigh_quoted, weigh_cons, hcolon, hleaf]
  omega

theorem weigh_value {x : Json ℤ} (hx : isContainer x = false) (hscalar : ∀ i, x ≠ .scalar i)
    (htext : ∀ text, x = .str text → Plain text) : weigh (quoted (strOf x)) = weight x := by
  rcases x with i | text | _ | _
  · exact absurd rfl (hscalar i)
  · show weigh (quoted text) = 2 + cost text
    rw [weigh_quoted, (cost_eq_weigh_iff text).2 (htext text rfl)]
  · cases hx
  · cases hx

section Pieces

variable {β : Type} {piece : β → Text} {nested : β → Bool} {itemWeight : β → ℕ} {items : List β}

/-- The pieces of a loop: a leaf has its comma, and a nested value has none. Neither weighs more than the item. -/
structure Pieces (piece : β → Text) (nested : β → Bool) (itemWeight : β → ℕ) (items : List β) : Prop where
  leaf : ∀ x ∈ items, nested x = false → ∃ body, piece x = body ++ [','] ∧ weigh body ≤ itemWeight x
  nested : ∀ x ∈ items, nested x = true → weigh (piece x) ≤ itemWeight x

theorem Pieces.tail {x : β} (h : Pieces piece nested itemWeight (x :: items)) :
    Pieces piece nested itemWeight items :=
  ⟨fun y hy => h.leaf y (List.mem_cons_of_mem _ hy), fun y hy => h.nested y (List.mem_cons_of_mem _ hy)⟩

theorem weigh_comma (body : Text) : weigh (body ++ [',']) = weigh body + 1 := by
  have hcomma : weigh [','] = 1 := by decide
  rw [weigh_append, hcomma]

/-- A piece weighs a comma more than its item at most, and a nested one no more than its item. -/
theorem Pieces.weigh_le {x : β} (h : Pieces piece nested itemWeight items) (hx : x ∈ items) :
    weigh (piece x) ≤ itemWeight x + 1 ∧ (nested x = true → weigh (piece x) ≤ itemWeight x) := by
  cases hnested : nested x with
  | false =>
      obtain ⟨body, hbody, hle⟩ := h.leaf x hx hnested
      rw [hbody, weigh_comma]
      exact ⟨Nat.succ_le_succ hle, fun h => by cases h⟩
  | true =>
      have hle := h.nested x hx hnested
      exact ⟨Nat.le_succ_of_le hle, fun _ => hle⟩

/-- The last piece: a comma at its end comes off, and what is left weighs no more than the item. -/
theorem Pieces.weigh_rstrip {x : β} (h : Pieces piece nested itemWeight items) (hx : x ∈ items) (before : Text) :
    weigh (rstrip (· = ',') (before ++ piece x)) ≤ weigh before + itemWeight x ∧
      (weigh (rstrip (· = ',') (before ++ piece x)) = weigh before + itemWeight x →
        weigh (piece x) = if nested x then itemWeight x else itemWeight x + 1) := by
  cases hnested : nested x with
  | false =>
      obtain ⟨body, hbody, hle⟩ := h.leaf x hx hnested
      have hstrip := weigh_rstrip_le (· = ',') (before ++ body)
      rw [weigh_append] at hstrip
      rw [hbody, ← List.append_assoc, rstrip_concat_of_pos (by decide), weigh_comma, if_neg Bool.false_ne_true]
      exact ⟨by omega, fun heq => by omega⟩
  | true =>
      have hle := h.nested x hx hnested
      have hstrip := weigh_rstrip_le (· = ',') (before ++ piece x)
      rw [weigh_append] at hstrip
      rw [if_pos rfl]
      exact ⟨by omega, fun heq => by omega⟩

/-- What is written, with the comma at the end off, weighs no more than the items with their commas. It weighs as
    much only where every piece in front of the last one is a leaf without loss, and the last one has no loss. The
    induction carries what has been written before. -/
theorem weigh_pieces (h : Pieces piece nested itemWeight items) (hne : items ≠ []) (before : Text) :
    weigh (rstrip (· = ',') (before ++ items.flatMap piece)) + 1
        ≤ weigh before + (items.map fun x => itemWeight x + 1).sum ∧
      (weigh (rstrip (· = ',') (before ++ items.flatMap piece)) + 1
        = weigh before + (items.map fun x => itemWeight x + 1).sum →
          ∃ init last, items = init ++ [last] ∧
            (∀ x ∈ init, nested x = false ∧ weigh (piece x) = itemWeight x + 1) ∧
            weigh (piece last) = if nested last then itemWeight last else itemWeight last + 1) := by
  induction items generalizing before with
  | nil => exact absurd rfl hne
  | cons x items ih =>
      rcases items with _ | ⟨y, items⟩
      · simp only [List.flatMap_cons, List.flatMap_nil, List.append_nil, List.map_cons, List.map_nil, List.sum_cons,
          List.sum_nil]
        obtain ⟨hle, hlossless⟩ := h.weigh_rstrip List.mem_cons_self before
        refine ⟨by omega, fun heq => ⟨[], x, rfl, fun _ h => absurd h List.not_mem_nil, ?_⟩⟩
        exact hlossless (by omega)
      · obtain ⟨hle, hlossless⟩ := ih h.tail (List.cons_ne_nil y items) (before ++ piece x)
        obtain ⟨hpiece, hnested⟩ := h.weigh_le List.mem_cons_self
        rw [List.flatMap_cons, ← List.append_assoc, List.map_cons, List.sum_cons]
        rw [weigh_append] at hle hlossless
        refine ⟨by omega, ?_⟩
        intro heq
        -- a nested value has no comma, so that one in front of the last piece would be missing
        have hfull : weigh (piece x) = itemWeight x + 1 := by omega
        have hx : nested x = false := by
          rw [← Bool.not_eq_true]
          intro hx
          exact absurd (hnested hx) (by omega)
        obtain ⟨init, last, hitems, hinit, hlast⟩ := hlossless (by omega)
        exact ⟨x :: init, last, by rw [hitems]; rfl, List.forall_mem_cons.2 ⟨⟨hx, hfull⟩, hinit⟩, hlast⟩

end Pieces

/-- What the loop over a dictionary adds for an item. -/
def itemPiece (p : Text × Json ℤ) : Text :=
  if isContainer p.2 then flattenParamToStr p.2 else quoted p.1 ++ ':' :: leafText p.2 ++ [',']

/-- What the loop over a list adds for a value. -/
def valuePiece (x : Json ℤ) : Text :=
  if isContainer x then flattenParamToStr x else quoted (strOf x) ++ [',']

theorem flattenItems_eq (items : List (Text × Json ℤ)) : flattenItems items = items.flatMap itemPiece := by
  induction items with
  | nil => rfl
  | cons p items ih => rw [flattenItems, ih, List.flatMap_cons, itemPiece]

theorem flattenValues_eq (items : List (Json ℤ)) : flattenValues items = items.flatMap valuePiece := by
  induction items with
  | nil => rfl
  | cons x items ih => rw [flattenValues, ih, List.flatMap_cons, valuePiece]

/-- Items in brackets and with commas between them weigh as much as with a comma behind each of them. -/
theorem weighItems_of_ne_nil {β : Type} {items : List β} (hne : items ≠ []) (itemWeight : β → ℕ) :
    weighItems (items.map itemWeight) = 1 + (items.map fun x => itemWeight x + 1).sum := by
  obtain ⟨x, items, rfl⟩ := List.exists_cons_of_ne_nil hne
  rw [weighItems, List.map_map]
  show 2 + (((x :: items).map fun x => itemWeight x + 1).sum - 1) = _
  rw [List.map_cons, List.sum_cons]
  omega

theorem nested_list_iff {items : List (Json ℤ)} :
    Nested (.list items) ↔ (∀ x ∈ items, ∀ i, x ≠ .scalar i) ∧ (∀ x ∈ items, ∀ text, x = .str text → Plain text) ∧
      ∀ x ∈ items, isContainer x = true → Nested x := by
  constructor
  · intro h
    cases h with
    | list scalars texts nested => exact ⟨scalars, texts, nested⟩
  · rintro ⟨scalars, texts, nested⟩
    exact .list scalars texts nested

theorem nested_dict_iff {items : List (Text × Json ℤ)} :
    Nested (.dict items) ↔ (items.map Prod.fst).Nodup ∧
      (∀ p ∈ items, ∀ text, p.2 = .str text → Plain text ∧ readInt text = none) ∧
      ∀ p ∈ items, isContainer p.2 = true → Nested p.2 := by
  constructor
  · intro h
    cases h with
    | dict nodup texts nested => exact ⟨nodup, texts, nested⟩
  · rintro ⟨nodup, texts, nested⟩
    exact .dict nodup texts nested

/-- The text of the value weighs no more than the value, and as much only where the value is flat. -/
def LosesWeight (v : Json ℤ) : Prop :=
  weigh (flattenParamToStr v) ≤ weight v ∧ (weigh (flattenParamToStr v) = weight v → Flat v)

theorem LosesWeight.list {items : List (Json ℤ)} (h : Nested (.list items))
    (ih : ∀ x ∈ items, Nested x → LosesWeight x) : LosesWeight (.list items) := by
  obtain ⟨scalars, texts, nested⟩ := nested_list_iff.1 h
  by_cases hnil : items = []
  · subst hnil
    exact ⟨by decide, fun _ => .list fun x hx => absurd hx List.not_mem_nil⟩
  have hpieces : Pieces valuePiece isContainer weight items := by
    refine ⟨fun x hx hleaf => ⟨quoted (strOf x), ?_, ?_⟩, fun x hx hnested => ?_⟩
    · rw [valuePiece, hleaf, if_neg Bool.false_ne_true]
    · exact Nat.le_of_eq (weigh_value hleaf (scalars x hx) (texts x hx))
    · rw [valuePiece, if_pos hnested]
      exact (ih x hx (nested x hx hnested)).1
  have hbracket : weigh ['['] = 1 ∧ weigh [']'] = 1 := by decide
  obtain ⟨hle, hlossless⟩ := weigh_pieces hpieces hnil ['[']
  rw [hbracket.1] at hle hlossless
  rw [LosesWeight, flattenParamToStr, flattenValues_eq, ← List.singleton_append, weigh_append, hbracket.2, weight_list,
    weighItems_of_ne_nil hnil]
  refine ⟨hle, ?_⟩
  intro heq
  obtain ⟨init, last, rfl, hinit, hlast⟩ := hlossless heq
  have hleaves : ∀ x ∈ init, isContainer x = false := fun x hx => (hinit x hx).1
  have hmem : last ∈ init ++ [last] := List.mem_append_right _ List.mem_cons_self
  cases hcontainer : isContainer last with
  | false => exact .list (List.forall_mem_append.2 ⟨hleaves, List.forall_mem_singleton.2 hcontainer⟩)
  | true =>
      rw [valuePiece, if_pos hcontainer, if_pos hcontainer] at hlast
      exact .listLast hleaves ((ih last hmem (nested last hmem hcontainer)).2 hlast)

/-- The piece of a leaf, without its comma, loses no more than an escape in its key. -/
theorem itemPiece_leaf {p : Text × Json ℤ} (hp : isContainer p.2 = false)
    (htext : ∀ text, p.2 = .str text → Plain text ∧ readInt text = none) :
    itemPiece p = quoted p.1 ++ ':' :: leafText p.2 ++ [','] ∧
      weigh (quoted p.1 ++ ':' :: leafText p.2) = 3 + weigh p.1 + weight p.2 := by
  rw [itemPiece, hp, if_neg Bool.false_ne_true]
  exact ⟨rfl, weigh_leaf hp htext⟩

theorem plain_of_weigh_itemPiece {p : Text × Json ℤ} (hp : isContainer p.2 = false)
    (htext : ∀ text, p.2 = .str text → Plain text ∧ readInt text = none)
    (heq : weigh (itemPiece p) = 3 + cost p.1 + weight p.2 + 1) : Plain p.1 := by
  obtain ⟨hpiece, hweigh⟩ := itemPiece_leaf hp htext
  rw [hpiece, weigh_comma, hweigh] at heq
  rw [← cost_eq_weigh_iff]
  omega

theorem LosesWeight.dict {items : List (Text × Json ℤ)} (h : Nested (.dict items))
    (ih : ∀ p ∈ items, Nested p.2 → LosesWeight p.2) : LosesWeight (.dict items) := by
  obtain ⟨-, texts, nested⟩ := nested_dict_iff.1 h
  by_cases hnil : items = []
  · subst hnil
    exact ⟨by decide, fun _ => .dict fun p hp => absurd hp List.not_mem_nil⟩
  -- the key of a nested value is not written
  have hlost : ∀ p ∈ items, isContainer p.2 = true → weigh (itemPiece p) < 3 + cost p.1 + weight p.2 := by
    intro p hp hnested
    rw [itemPiece, if_pos hnested]
    have := (ih p hp (nested p hp hnested)).1
    omega
  have hpieces : Pieces itemPiece (fun p => isContainer p.2) (fun p => 3 + cost p.1 + weight p.2) items := by
    refine ⟨?_, fun p hp hnested => Nat.le_of_lt (hlost p hp hnested)⟩
    intro p hp hleaf
    obtain ⟨hpiece, hweigh⟩ := itemPiece_leaf hleaf (texts p hp)
    have := weigh_le_cost p.1
    exact ⟨_, hpiece, by omega⟩
  have hbrace : weigh ['\x7b'] = 1 ∧ weigh ['\x7d'] = 1 := by decide
  obtain ⟨hle, hlossless⟩ := weigh_pieces hpieces hnil ['\x7b']
  rw [hbrace.1] at hle hlossless
  rw [LosesWeight, flattenParamToStr, flattenItems_eq, ← List.singleton_append, weigh_append, hbrace.2, weight_dict,
    weighItems_of_ne_nil hnil]
  refine ⟨hle, ?_⟩
  intro heq
  obtain ⟨init, last, rfl, hinit, hlast⟩ := hlossless heq
  have hmem : last ∈ init ++ [last] := List.mem_append_right _ List.mem_cons_self
  have hleaf : isContainer last.2 = false := by
    rw [← Bool.not_eq_true]
    intro hcontainer
    rw [if_pos hcontainer] at hlast
    exact absurd (hlost last hmem hcontainer) (by omega)
  rw [hleaf, if_neg Bool.false_ne_true] at hlast
  refine .dict (List.forall_mem_append.2 ⟨fun p hp => ?_, List.forall_mem_singleton.2 ?_⟩)
  · obtain ⟨hp', heq⟩ := hinit p hp
    exact ⟨plain_of_weigh_itemPiece hp' (texts p (List.mem_append_left _ hp)) heq, hp'⟩
  · exact ⟨plain_of_weigh_itemPiece hleaf (texts last hmem) hlast, hleaf⟩

/-- **A flattened value weighs no more than the value, and as much only where nothing is lost.** -/
theorem weigh_flatten {v : Json ℤ} (h : Nested v) : LosesWeight v := by
  induction v using induct with
  | scalar i => cases h
  | str text => cases h
  | list items ih => exact .list h ih
  | dict items ih => exact .dict h ih

/-! ## What a flat value is written as -/

/-- The text ends with a character that is no comma. -/
def Solid (text : Text) : Prop := ∃ init c, text = init ++ [c] ∧ c ≠ ','

theorem solid_quoted (text : Text) : Solid (quoted text) := ⟨'"' :: text, '"', rfl, by decide⟩

theorem Solid.append {text : Text} (h : Solid text) (before : Text) : Solid (before ++ text) := by
  obtain ⟨init, c, rfl, hc⟩ := h
  exact ⟨before ++ init, c, (List.append_assoc ..).symm, hc⟩

theorem Solid.cons {text : Text} (h : Solid text) (c : Char) : Solid (c :: text) := h.append [c]

theorem solid_intText (i : ℤ) : Solid (intText i) := by
  have hdigits : ∀ n : ℕ, Solid (toString n).toList := by
    intro n
    obtain ⟨d, rest, hcons, -⟩ := toString_cons n
    have hne : (toString n).toList ≠ [] := by
      rw [hcons]
      exact List.cons_ne_nil d rest
    refine ⟨_, _, (List.dropLast_append_getLast hne).symm, ?_⟩
    intro hc
    have hdigit := isDigit_of_mem _ (List.getLast_mem hne)
    rw [hc] at hdigit
    exact absurd hdigit (by decide)
  rw [intText]
  split
  · exact (hdigits _).cons '-'
  · exact hdigits _

theorem Solid.rstrip_eq {text : Text} (h : Solid text) : rstrip (· = ',') text = text := by
  obtain ⟨init, c, rfl, hc⟩ := h
  exact rstrip_concat_of_neg (by rw [decide_eq_false_iff_not]; exact hc) init

/-- The last text of a joined one, behind the others with their commas. -/
theorem join_concat (texts : List Text) (last : Text) :
    join ',' (texts ++ [last]) = (texts.flatMap fun text => text ++ [',']) ++ last := by
  induction texts with
  | nil => rw [List.nil_append, join_singleton, List.flatMap_nil, List.nil_append]
  | cons text texts ih =>
      obtain ⟨next, rest, hrest⟩ := List.exists_cons_of_ne_nil (List.append_ne_nil_of_right_ne_nil texts
        (List.cons_ne_nil last []))
      rw [List.cons_append, hrest, join_cons_cons, ← hrest, ih, List.flatMap_cons]
      simp

/-- Leaves with their commas and a last text without one. -/
theorem rstrip_last (c : Char) (texts : List Text) {last : Text} (hlast : Solid last) :
    rstrip (· = ',') (c :: ((texts.flatMap fun text => text ++ [',']) ++ last)) = c :: join ',' (texts ++ [last]) := by
  rw [join_concat]
  exact ((hlast.append _).cons c).rstrip_eq

/-- Leaves with their commas, of which the last one comes off. -/
theorem rstrip_leaves {c : Char} (hc : c ≠ ',') {texts : List Text} (h : ∀ text ∈ texts, Solid text) :
    rstrip (· = ',') (c :: texts.flatMap fun text => text ++ [',']) = c :: join ',' texts := by
  rcases List.eq_nil_or_concat texts with rfl | ⟨init, last, rfl⟩
  · exact Solid.rstrip_eq ⟨[], c, rfl, hc⟩
  · have hlast : Solid last := h last (by simp)
    have hcomma : (init ++ [last]).flatMap (fun text => text ++ [','])
        = (init.flatMap fun text => text ++ [',']) ++ last ++ [','] := by
      simp
    rw [List.concat_eq_append, hcomma, ← List.cons_append, rstrip_concat_of_pos (by decide), rstrip_last c init hlast]

theorem Flat.isContainer {v : Json ℤ} (h : Flat v) : isContainer v = true := by
  cases h with
  | dict => rfl
  | list => rfl
  | listLast => rfl

theorem wellFormed_leaf {x : Json ℤ} (hx : isContainer x = false) : WellFormed x := by
  rcases x with _ | _ | _ | _
  · trivial
  · trivial
  · cases hx
  · cases hx

theorem writable_leaf {x : Json ℤ} (hx : isContainer x = false) (htext : ∀ text, x = .str text → Plain text) :
    Writable x := by
  rcases x with _ | text | _ | _
  · trivial
  · exact htext text rfl
  · cases hx
  · cases hx

theorem Nested.wellFormed {v : Json ℤ} (h : Nested v) : WellFormed v := by
  induction h with
  | @dict items nodup texts nested ih =>
      refine wellFormed_dict_iff.2 ⟨nodup, fun p hp => ?_⟩
      cases hcontainer : TestInfra.Dispatcher.isContainer p.2 with
      | true => exact ih p hp hcontainer
      | false => exact wellFormed_leaf hcontainer
  | @list items scalars texts nested ih =>
      refine wellFormed_list_iff.2 fun x hx => ?_
      cases hcontainer : TestInfra.Dispatcher.isContainer x with
      | true => exact ih x hx hcontainer
      | false => exact wellFormed_leaf hcontainer

theorem solid_dumps (v : Json ℤ) : Solid (dumps v) := by
  rcases v with i | text | items | items
  · exact solid_intText i
  · exact solid_quoted text
  · rw [dumps_list]
    exact ⟨_, ']', rfl, by decide⟩
  · rw [dumps_dict]
    exact ⟨_, '\x7d', rfl, by decide⟩

/-- A leaf of a list is written as it would be anywhere. -/
theorem valuePiece_of_leaf {x : Json ℤ} (hx : isContainer x = false) (hscalar : ∀ i, x ≠ .scalar i) :
    valuePiece x = dumps x ++ [','] := by
  rcases x with i | text | _ | _
  · exact absurd rfl (hscalar i)
  · rfl
  · cases hx
  · cases hx

theorem itemPiece_of_leaf {p : Text × Json ℤ} (hp : isContainer p.2 = false)
    (htext : ∀ text, p.2 = .str text → Plain text ∧ readInt text = none) :
    itemPiece p = quoted p.1 ++ ':' :: dumps p.2 ++ [','] := by
  obtain ⟨key, i | text | _ | _⟩ := p
  · rfl
  · rw [itemPiece, if_neg (by exact Bool.false_ne_true)]
    dsimp only
    rw [leafText, (htext text rfl).2]
    rfl
  · cases hp
  · cases hp

/-- **A flat value is written as `json.dumps` would write it**, without white space. -/
theorem flatten_of_flat {v : Json ℤ} (hflat : Flat v) (h : Nested v) :
    flattenParamToStr v = dumps v ∧ Writable v := by
  induction hflat with
  | @dict items leaves =>
      obtain ⟨nodup, texts, -⟩ := nested_dict_iff.1 h
      have hpieces : items.flatMap itemPiece
          = (items.map fun p => quoted p.1 ++ ':' :: dumps p.2).flatMap fun text => text ++ [','] := by
        rw [List.flatMap_map]
        exact List.flatMap_congr fun p hp => itemPiece_of_leaf (leaves p hp).2 (texts p hp)
      refine ⟨?_, writable_dict_iff.2 ⟨nodup, fun p hp => ⟨(leaves p hp).1, ?_⟩⟩⟩
      · rw [flattenParamToStr, flattenItems_eq, hpieces, rstrip_leaves (by decide), dumps_dict]
        rw [List.forall_mem_map]
        exact fun p _ => ((solid_dumps p.2).cons ':').append _
      · exact writable_leaf (leaves p hp).2 fun text htext => (texts p hp text htext).1
  | @list items leaves =>
      obtain ⟨scalars, texts, -⟩ := nested_list_iff.1 h
      have hpieces : items.flatMap valuePiece = (items.map dumps).flatMap fun text => text ++ [','] := by
        rw [List.flatMap_map]
        exact List.flatMap_congr fun x hx => valuePiece_of_leaf (leaves x hx) (scalars x hx)
      refine ⟨?_, writable_list_iff.2 fun x hx => writable_leaf (leaves x hx) (texts x hx)⟩
      rw [flattenParamToStr, flattenValues_eq, hpieces, rstrip_leaves (by decide), dumps_list]
      rw [List.forall_mem_map]
      exact fun x _ => solid_dumps x
  | @listLast items last leaves flat ih =>
      obtain ⟨scalars, texts, nested⟩ := nested_list_iff.1 h
      have hmem : ∀ x ∈ items, x ∈ items ++ [last] := fun x hx => List.mem_append_left _ hx
      have hlast : last ∈ items ++ [last] := List.mem_append_right _ List.mem_cons_self
      obtain ⟨htext, hwritable⟩ := ih (nested last hlast flat.isContainer)
      have hpieces : (items ++ [last]).flatMap valuePiece
          = ((items.map dumps).flatMap fun text => text ++ [',']) ++ dumps last := by
        rw [List.flatMap_append, List.flatMap_singleton, valuePiece, if_pos flat.isContainer, htext,
          List.flatMap_map]
        congr 1
        exact List.flatMap_congr fun x hx => valuePiece_of_leaf (leaves x hx) (scalars x (hmem x hx))
      refine ⟨?_, writable_list_iff.2 (List.forall_mem_append.2 ⟨fun x hx => ?_, ?_⟩)⟩
      · rw [flattenParamToStr, flattenValues_eq, hpieces, rstrip_last _ _ (solid_dumps last), dumps_list,
          List.map_append]
        rfl
      · exact writable_leaf (leaves x hx) (texts x (hmem x hx))
      · exact List.forall_mem_singleton.2 hwritable

/-! ## The trip -/

/-- A configuration as it may stand in a document. -/
structure MixedBuildConfig where
  value : Json ℤ
  nested : Nested value

/-- `populateIni` reads what the dispatcher has written as the configuration. -/
def Survives {α : Type} [DecidableEq α] (sc : Scalars α) (config : MixedBuildConfig) : Prop :=
  ∃ v, readMixedBuild sc (mixedBuildParam "columnar".toList (some config.value)) = some v ∧
    pyEq (config.value.mapScalars sc.int) v = true

theorem readMixedBuild_mixedBuildParam {α : Type} (sc : Scalars α) (v : Json ℤ) :
    readMixedBuild sc (mixedBuildParam "columnar".toList (some v)) = loads sc (flattenParamToStr v) := by
  rw [readMixedBuild, mixedBuildParam, if_pos rfl, unquote_quote]
  rfl

/-- **Exactly the flat configurations survive the trip**: whatever numbers are read as, `populateIni` reads the
    configuration that the dispatcher was given if and only if no dictionary of it has a nested value or a key that
    needs an escape, and in its lists only the last value is nested. -/
theorem survives_iff {α : Type} [DecidableEq α] (sc : Scalars α) (config : MixedBuildConfig) :
    Survives sc config ↔ Flat config.value := by
  obtain ⟨v, h⟩ := config
  have hwell := h.wellFormed.mapScalars sc.int
  rw [Survives, readMixedBuild_mixedBuildParam]
  constructor
  · rintro ⟨w, hloads, heq⟩
    obtain ⟨hle, hlossless⟩ := weigh_flatten h
    have hweight := weight_le_of_pyEq hwell heq
    have hread : weight w ≤ weigh (flattenParamToStr v) := weight_le_of_loads sc hloads
    rw [weight_mapScalars] at hweight
    exact hlossless (by omega)
  · intro hflat
    obtain ⟨htext, hwritable⟩ := flatten_of_flat hflat h
    refine ⟨v.mapScalars sc.int, ?_, pyEq_self hwell⟩
    rw [htext]
    exact loads_dumps sc hwritable

/-- Numbers as they are, and `None` and the booleans as numbers. -/
def sampleScalars : Scalars ℤ := ⟨0, fun b => if b then 1 else 0, id, fun _ => 0⟩

/-- A dictionary in a dictionary. -/
def nestedConfig : MixedBuildConfig where
  value := .dict [("columnar".toList, .dict [("kv".toList, .scalar 2)])]
  nested := by
    refine .dict (by decide) (fun p hp text htext => ?_) fun p hp _ => ?_
    · rw [List.mem_singleton] at hp
      rw [hp] at htext
      cases htext
    · rw [List.mem_singleton] at hp
      rw [hp]
      refine .dict (by decide) (fun q hq text htext => ?_) fun q hq hcontainer => ?_
      · rw [List.mem_singleton] at hq
        rw [hq] at htext
        cases htext
      · rw [List.mem_singleton] at hq
        rw [hq] at hcontainer
        cases hcontainer

example : flattenParamToStr nestedConfig.value = "\x7b\x7b\"kv\":2\x7d\x7d".toList := by decide +kernel

/-- The key of the nested dictionary is lost, and what is left cannot be read. -/
theorem nested_lost : ¬ Survives sampleScalars nestedConfig := by
  rintro ⟨v, hread, -⟩
  have hnone : loads sampleScalars (flattenParamToStr nestedConfig.value) = none :=
    Option.isNone_iff_eq_none.1 (by decide +kernel)
  rw [readMixedBuild_mixedBuildParam, hnone] at hread
  cases hread

end TestInfra.Dispatcher
