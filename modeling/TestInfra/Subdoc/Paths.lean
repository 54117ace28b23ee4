import TestInfra.Lib.JsonPath
import TestInfra.Lib.PyInt
import TestInfra.Lib.SplitOn
import Mathlib.Data.List.Induction

set_option autoImplicit false

/-! # Paths into a document

`SubdocHelper` (`lib/couchbase_helper/subdoc_helper.py`) names the values in a document by texts such as
`a.b[0][1].c`. `find_pairs` collects them for all values, `find_pairs_data_type` for the containers of a kind, and
`parse_and_get_data` follows them.

The texts are unambiguous when no key is empty or has a dot or a bracket in it (`PlainKeys`). -/

namespace TestInfra.SubdocHelper

open PyText Json

variable {α : Type}

/-! ## Collecting -/

/-- `mutation_operation_type` and `data_type`. -/
inductive DataType where
  | any
  | dict
  | array
deriving DecidableEq, Repr

/-- `_find_data_type`. -/
def findDataType (type : DataType) : Json α → Bool
  | .dict _ => type = .any || type = .dict
  | .list _ => type = .any || type = .array
  | _ => false

/-- The path of an item: `prefix + key`, or `path + "[" + str(index) + "]"`. -/
def extend (path : Text) : Step → Text
  | .key key => (if path ≠ [] then path ++ ['.'] else []) ++ key
  | .index i => path ++ '[' :: (toString i).toList ++ [']']

mutual

/-- The recursion of `find_pairs` and `find_pairs_data_type`: `keep` says which items are stored, `deep` which ones of
    those below them. -/
def collect (keep deep : Json α → Bool) (pairs : Dict Text (Json α)) (path : Text) : Json α → Dict Text (Json α)
  -- there is nothing below a scalar
  | .scalar _ => pairs
  | .str _ => pairs
  | .list items => collectList keep deep pairs path 0 items
  | .dict items => collectDict keep deep pairs path items

def collectList (keep deep : Json α → Bool) (pairs : Dict Text (Json α)) (path : Text) :
    ℕ → List (Json α) → Dict Text (Json α)
  | _, [] => pairs
  | index, element :: items =>
      let below := collect deep deep pairs (extend path (.index index)) element
      let pairs := if keep element then below.set (extend path (.index index)) element else below
      collectList keep deep pairs path (index + 1) items

def collectDict (keep deep : Json α → Bool) (pairs : Dict Text (Json α)) (path : Text) :
    List (Text × Json α) → Dict Text (Json α)
  | [] => pairs
  | (key, element) :: items =>
      let below := collect deep deep pairs (extend path (.key key)) element
      let pairs := if keep element then below.set (extend path (.key key)) element else below
      collectDict keep deep pairs path items

end

/-- `find_pairs`. -/
def findPairs (dataSet : Json α) (path : Text) (pairs : Dict Text (Json α)) : Dict Text (Json α) :=
  collect (fun _ => true) (fun _ => true) pairs path dataSet

/-- `find_pairs_data_type`. The recursive calls leave `data_type` out. -/
def findPairsDataType (dataSet : Json α) (path : Text) (pairs : Dict Text (Json α)) (type : DataType) :
    Dict Text (Json α) :=
  collect (findDataType type) (findDataType .any) pairs path dataSet

/-! ## Following -/

/-- What a path is taken apart into. -/
inductive Access where
  | key (key : Text)
  | index (i : ℤ)
deriving DecidableEq, Repr

/-- `int(k.replace("]",""))`; `none` where it raises. -/
def indexAccess (k : Text) : Option Access := (readInt (k.filter (· ≠ ']'))).map Access.index

/-- The key in front of the first bracket, if there is one. -/
def firstAccess (first : Text) : List Access := if first ≠ [] then [.key first] else []

/-- A part of a path between two dots. -/
def segmentAccesses (segment : Text) : Option (List Access) :=
  if '[' ∉ segment then some [.key segment]
  else
    match segment.splitOn '[' with
    | [] => some []
    | first :: pieces => (pieces.mapM indexAccess).map (firstAccess first ++ ·)

def parsePath (path : Text) : Option (List Access) := ((path.splitOn '.').mapM segmentAccesses).map List.flatten

/-- `xs[i]`, from the end for a negative index. -/
def pyIndex {β : Type} (xs : List β) (i : ℤ) : Option β :=
  if 0 ≤ i then xs[i.toNat]? else if -(xs.length : ℤ) ≤ i then xs[(xs.length + i).toNat]? else none

/-- `data_set[..]`; `none` where it raises. -/
def getItem : Json α → Access → Option (Json α)
  | .dict items, .key key => Assoc.find key items
  | .list items, .index i => pyIndex items i
  | .str text, .index i => (pyIndex text i).map fun c => .str [c]
  | _, _ => none

/-- `parse_and_get_data`; `none` where it raises. -/
def parseAndGetData (dataSet : Json α) (path : Text) : Option (Json α) :=
  (parsePath path).bind fun accesses => accesses.foldlM getItem dataSet

/-! ## The paths of the nodes -/

/-- The path of a position. -/
def render (p : List Step) : Text := p.foldl extend []

/-- Whether a node is stored. -/
def kept (keep deep : Json α → Bool) (n : List Step × Json α) : Bool := if n.1.length = 1 then keep n.2 else deep n.2

/-- Both loops of `find_pairs` do the same to an item. -/
def collectItem (keep deep : Json α → Bool) (path : Text) (pairs : Dict Text (Json α)) (c : Step × Json α) :
    Dict Text (Json α) :=
  let below := collect deep deep pairs (extend path c.1) c.2
  if keep c.2 then below.set (extend path c.1) c.2 else below

theorem collect_eq_foldl_children (keep deep : Json α → Bool) (pairs : Dict Text (Json α)) (path : Text)
    (v : Json α) : collect keep deep pairs path v = (children v).foldl (collectItem keep deep path) pairs := by
  rcases v with a | text | items | items
  · rfl
  · rfl
  · have hlist : ∀ i, collectList keep deep pairs path i items
        = (items.mapIdx fun j x => (Step.index (i + j), x)).foldl (collectItem keep deep path) pairs := by
      induction items generalizing pairs with
      | nil => exact fun i => rfl
      | cons x items ih =>
          intro i
          rw [collectList, ih, List.mapIdx_cons, List.foldl_cons]
          simp only [Nat.add_assoc, Nat.add_comm 1]
          rfl
    rw [collect, hlist, children]
    simp only [Nat.zero_add]
  · rw [collect, children]
    induction items generalizing pairs with
    | nil => rfl
    | cons p items ih =>
        rw [collectDict, ih, List.map_cons, List.foldl_cons]
        rfl

/-- The nodes are stored one after the other. -/
theorem collect_eq_foldl_nodes (keep deep : Json α → Bool) (pairs : Dict Text (Json α)) (path : Text) (v : Json α) :
    collect keep deep pairs path v
      = ((nodes v).filter (kept keep deep)).foldl (fun pairs n => pairs.set (n.1.foldl extend path) n.2) pairs := by
  induction v using induct_children generalizing keep pairs path with
  | h v ih =>
      rw [collect_eq_foldl_children, nodes_eq, List.filter_flatMap, List.foldl_flatMap]
      refine List.foldl_ext _ _ _ fun pairs c hc => ?_
      have hbelow : (nodes c.2).filter (kept keep deep ∘ fun n => (c.1 :: n.1, n.2))
          = (nodes c.2).filter (kept deep deep) := by
        refine List.filter_congr fun n hn => ?_
        have hlength : (c.1 :: n.1).length ≠ 1 := by
          rw [List.length_cons]
          exact fun h => ne_nil_of_mem_nodes hn (List.length_eq_zero_iff.1 (Nat.succ.inj h))
        rw [Function.comp_apply, kept, if_neg hlength, kept, ite_self]
      have hlast : [([c.1], c.2)].filter (kept keep deep) = if keep c.2 then [([c.1], c.2)] else [] := by
        rw [List.filter_singleton, Bool.cond_eq_ite]
        rfl
      rw [collectItem, ih c hc, nodesBehind, List.filter_append, List.filter_map, hbelow, hlast, List.foldl_append,
        List.foldl_map]
      by_cases hkeep : keep c.2 = true
      · rw [if_pos hkeep, if_pos hkeep]
        rfl
      · rw [if_neg hkeep, if_neg hkeep]
        rfl

/-- The paths stored: those of the nodes to be kept. -/
theorem mem_keys_collect_iff {keep deep : Json α → Bool} {v : Json α} {path : Text} :
    path ∈ (collect keep deep ∅ [] v).keys ↔ ∃ n ∈ nodes v, kept keep deep n = true ∧ render n.1 = path := by
  have hkeys : ∀ (l : List (List Step × Json α)) (pairs : Dict Text (Json α)),
      path ∈ (l.foldl (fun pairs n => pairs.set (n.1.foldl extend []) n.2) pairs).keys
        ↔ (∃ n ∈ l, render n.1 = path) ∨ path ∈ pairs.keys := by
    intro l
    induction l with
    | nil => simp
    | cons n l ih =>
        intro pairs
        rw [List.foldl_cons, ih, Dict.mem_keys_set, List.exists_mem_cons_iff, ← or_assoc, or_comm (a := ∃ n ∈ l, _),
          eq_comm]
        rfl
  rw [collect_eq_foldl_nodes, hkeys]
  simp only [List.mem_filter, Dict.keys_empty, List.not_mem_nil, or_false, and_assoc]

/-- With a path for each node, the value under it is the one there. -/
theorem get?_collect_iff {keep deep : Json α → Bool} {v : Json α}
    (hpaths : ((nodes v).map fun n => render n.1).Nodup) {path : Text} {x : Json α} :
    (collect keep deep ∅ [] v).get? path = some x
      ↔ ∃ n ∈ nodes v, kept keep deep n = true ∧ render n.1 = path ∧ n.2 = x := by
  have hstored : collect keep deep ∅ [] v
      = (((nodes v).filter (kept keep deep)).map fun n => (render n.1, n.2)).foldl
          (fun pairs p => pairs.set p.1 p.2) ∅ := by
    rw [collect_eq_foldl_nodes, List.foldl_map]
    rfl
  have hnodup : (((((nodes v).filter (kept keep deep)).map fun n => (render n.1, n.2))).map Prod.fst).Nodup := by
    rw [List.map_map]
    exact hpaths.sublist (List.filter_sublist.map _)
  rw [hstored, Dict.get?_foldl_set _ hnodup, Dict.get?_empty, Option.or_none, Assoc.find_eq_some_iff _ _ _ hnodup,
    List.mem_map]
  simp only [List.mem_filter, Prod.mk.injEq, and_assoc]

/-! ## Reading a path back -/

/-- A key that can be told from the rest of a path. -/
def PlainKey (key : Text) : Prop := key ≠ [] ∧ '.' ∉ key ∧ '[' ∉ key ∧ ']' ∉ key

def PlainStep : Step → Prop
  | .key key => PlainKey key
  | .index _ => True

/-- All keys in the document are plain. -/
def PlainKeys : Json α → Prop :=
  fold (fun _ => True) (fun _ => True) (fun items => ∀ h ∈ items, h) fun items => ∀ p ∈ items, PlainKey p.1 ∧ p.2

@[simp] theorem plainKeys_scalar (a : α) : PlainKeys (.scalar a) := trivial

@[simp] theorem plainKeys_str (text : Text) : PlainKeys (.str text : Json α) := trivial

theorem plainKeys_list_iff {items : List (Json α)} : PlainKeys (.list items) ↔ ∀ x ∈ items, PlainKeys x := by
  rw [PlainKeys, fold_list, List.forall_mem_map]

theorem plainKeys_dict_iff {items : List (Text × Json α)} :
    PlainKeys (.dict items) ↔ ∀ p ∈ items, PlainKey p.1 ∧ PlainKeys p.2 := by
  rw [PlainKeys, fold_dict, List.forall_mem_map]

theorem plainKeys_iff {v : Json α} : PlainKeys v ↔ ∀ c ∈ children v, PlainStep c.1 ∧ PlainKeys c.2 := by
  rcases v with a | text | items | items
  · exact ⟨fun _ _ hc => absurd hc List.not_mem_nil, fun _ => trivial⟩
  · exact ⟨fun _ _ hc => absurd hc List.not_mem_nil, fun _ => trivial⟩
  · rw [plainKeys_list_iff]
    constructor
    · intro h c hc
      obtain ⟨i, hi, rfl⟩ := List.mem_mapIdx.1 hc
      exact ⟨trivial, h _ (List.getElem_mem hi)⟩
    · intro h x hx
      obtain ⟨i, hi, rfl⟩ := List.mem_iff_getElem.1 hx
      exact (h (.index i, items[i]) (List.mem_mapIdx.2 ⟨i, hi, rfl⟩)).2
  · rw [plainKeys_dict_iff, children, List.forall_mem_map]
    exact Iff.rfl

theorem plainStep_of_mem_nodes {v : Json α} (hv : PlainKeys v) {n : List Step × Json α} (hn : n ∈ nodes v) :
    ∀ s ∈ n.1, PlainStep s := by
  induction v using induct_children generalizing n with
  | h v ih =>
      rw [nodes_eq, List.mem_flatMap] at hn
      obtain ⟨c, hc, hn⟩ := hn
      obtain ⟨hstep, hbelow⟩ := plainKeys_iff.1 hv c hc
      rw [nodesBehind, List.mem_append, List.mem_singleton, List.mem_map] at hn
      rcases hn with ⟨n', hn', rfl⟩ | rfl
      · exact List.forall_mem_cons.2 ⟨hstep, ih c hc hbelow hn'⟩
      · exact List.forall_mem_singleton.2 hstep

/-- The access that a step is written as. -/
def accessOf : Step → Access
  | .key key => .key key
  | .index i => .index i

theorem accessOf_injective : Function.Injective accessOf := by
  intro s t h
  rcases s with key | i
  · rcases t with key' | j
    · exact congrArg Step.key (Access.key.inj h)
    · exact nomatch h
  · rcases t with key' | j
    · exact nomatch h
    · exact congrArg Step.index (Int.ofNat.inj (Access.index.inj h))

theorem not_mem_toString {c : Char} (hc : c.isDigit = false) (i : ℕ) : c ∉ (toString i).toList := by
  intro hmem
  rw [isDigit_of_mem c hmem] at hc
  exact Bool.false_ne_true hc.symm

theorem segmentAccesses_key {key : Text} (h : PlainKey key) : segmentAccesses key = some [.key key] :=
  if_pos h.2.2.1

/-- The index in brackets. -/
def bracketed (i : ℕ) : Text := '[' :: (toString i).toList ++ [']']

theorem splitOn_append_bracketed (segment : Text) (i : ℕ) :
    (segment ++ bracketed i).splitOn '[' = segment.splitOn '[' ++ [(toString i).toList ++ [']']] := by
  have hrest : '[' ∉ (toString i).toList ++ [']'] := by
    rw [List.mem_append, not_or]
    exact ⟨not_mem_toString (by decide) i, by decide⟩
  rw [bracketed, List.cons_append, List.splitOn_append_cons_self, List.splitOn_eq_singleton hrest]

theorem indexAccess_bracketed (i : ℕ) : indexAccess ((toString i).toList ++ [']']) = some (.index i) := by
  have hdigits : (toString i).toList.filter (· ≠ ']') = (toString i).toList := by
    refine List.filter_eq_self.2 fun c hc => decide_eq_true fun heq => ?_
    exact not_mem_toString (by decide) i (heq ▸ hc)
  have hbracket : [']'].filter (· ≠ ']') = [] := rfl
  have hfilter : ((toString i).toList ++ [']']).filter (· ≠ ']') = (toString i).toList := by
    rw [List.filter_append, hdigits, hbracket, List.append_nil]
  rw [indexAccess, hfilter, readInt_toString]
  rfl

theorem mapM_concat {β γ : Type} {f : β → Option γ} {b : β} {c : γ} (hb : f b = some c) (l : List β) :
    (l ++ [b]).mapM f = (l.mapM f).map (· ++ [c]) := by
  rw [List.mapM_append, List.mapM_cons, hb]
  rcases l.mapM f with _ | cs
  · rfl
  · rfl

theorem segmentAccesses_of_splitOn {segment first : Text} {pieces : List Text} (hmem : '[' ∈ segment)
    (hpieces : segment.splitOn '[' = first :: pieces) :
    segmentAccesses segment = (pieces.mapM indexAccess).map (firstAccess first ++ ·) := by
  rw [segmentAccesses, if_neg (not_not.2 hmem), hpieces]

/-- An index behind a part of a path. -/
theorem segmentAccesses_append {segment : Text} (hne : segment ≠ []) (i : ℕ) :
    segmentAccesses (segment ++ bracketed i) = (segmentAccesses segment).map (· ++ [.index i]) := by
  have hmem : '[' ∈ segment ++ bracketed i := List.mem_append_right _ List.mem_cons_self
  have hsplit := splitOn_append_bracketed segment i
  by_cases hbracket : '[' ∈ segment
  · obtain ⟨first, pieces, hpieces⟩ := List.exists_cons_of_ne_nil (List.splitOn_ne_nil '[' segment)
    rw [hpieces, List.cons_append] at hsplit
    rw [segmentAccesses_of_splitOn hmem hsplit, segmentAccesses_of_splitOn hbracket hpieces,
      mapM_concat (indexAccess_bracketed i)]
    rcases pieces.mapM indexAccess with _ | accesses
    · rfl
    · exact congrArg some (List.append_assoc _ _ _).symm
  · rw [List.splitOn_eq_singleton hbracket, List.singleton_append] at hsplit
    rw [segmentAccesses_of_splitOn hmem hsplit, segmentAccesses, if_pos hbracket, List.mapM_cons,
      indexAccess_bracketed, firstAccess, if_pos hne]
    rfl

theorem segmentAccesses_bracketed (i : ℕ) : segmentAccesses (bracketed i) = some [.index i] := by
  have hsplit := splitOn_append_bracketed [] i
  rw [List.nil_append, List.splitOn_nil, List.singleton_append] at hsplit
  have hmem : '[' ∈ bracketed i := List.mem_cons_self
  rw [segmentAccesses_of_splitOn hmem hsplit, List.mapM_cons, indexAccess_bracketed]
  rfl

theorem render_concat (p : List Step) (s : Step) : render (p ++ [s]) = extend (render p) s := by
  rw [render, List.foldl_append]
  rfl

theorem render_concat_index (p : List Step) (i : ℕ) : render (p ++ [.index i]) = render p ++ bracketed i := by
  rw [render_concat, extend, List.append_assoc]
  rfl

/-- A path, taken apart at its dots: what stands between them is read piece by piece, and an index can follow the last
    piece. -/
structure Reads (p : List Step) (init : List Text) (last : Text) : Prop where
  pieces : SplitOn.Pieces '.' (render p) init last
  last_ne_nil : last ≠ []
  parsed : parsePath (render p) = some (p.map accessOf)

namespace Reads

variable {p : List Step} {init : List Text} {last : Text}

theorem render_ne_nil (h : Reads p init last) : render p ≠ [] := by
  intro hnil
  have hsplit := h.pieces.splitOn_eq
  rw [hnil, List.splitOn_nil] at hsplit
  rw [← List.nil_append [[]]] at hsplit
  obtain ⟨-, hlast⟩ := List.append_inj' hsplit rfl
  exact h.last_ne_nil (List.singleton_inj.1 hlast).symm

/-- The parts of a path are read one by one. -/
theorem parsed_parts (h : Reads p init last) : ∃ parts lastPart, init.mapM segmentAccesses = some parts ∧
    segmentAccesses last = some lastPart ∧ parts.flatten ++ lastPart = p.map accessOf := by
  have hparsed := h.parsed
  rw [parsePath, h.pieces.splitOn_eq, List.mapM_append, List.mapM_cons] at hparsed
  rcases hinit : init.mapM segmentAccesses with _ | parts
  · rw [hinit] at hparsed
    exact nomatch hparsed
  rcases hlast : segmentAccesses last with _ | lastPart
  · rw [hinit, hlast] at hparsed
    exact nomatch hparsed
  rw [hinit, hlast] at hparsed
  refine ⟨parts, lastPart, rfl, rfl, ?_⟩
  have hflat : (parts ++ [lastPart]).flatten = p.map accessOf := Option.some.inj hparsed
  rwa [List.flatten_append, List.flatten_singleton] at hflat

theorem parsePath_of_parts {path last : Text} {init : List Text} (hsplit : path.splitOn '.' = init ++ [last])
    {parts : List (List Access)} {lastPart : List Access} (hinit : init.mapM segmentAccesses = some parts)
    (hlast : segmentAccesses last = some lastPart) : parsePath path = some (parts.flatten ++ lastPart) := by
  rw [parsePath, hsplit, mapM_concat hlast, hinit, Option.map_some, Option.map_some, List.flatten_append,
    List.flatten_singleton]

theorem key (h : Reads p init last) {key : Text} (hkey : PlainKey key) :
    Reads (p ++ [.key key]) (init ++ [last]) key := by
  have hrender : render (p ++ [.key key]) = render p ++ '.' :: key := by
    rw [render_concat, extend, if_pos h.render_ne_nil, List.append_assoc]
    rfl
  have hwhole : key.splitOn '.' = [key] := List.splitOn_eq_singleton hkey.2.1
  have hsplit : (render (p ++ [.key key])).splitOn '.' = (init ++ [last]) ++ [key] := by
    rw [hrender, List.splitOn_append_cons_self, hwhole, h.pieces.splitOn_eq]
  obtain ⟨parts, lastPart, hinit, hlast, hflat⟩ := h.parsed_parts
  have hboth : (init ++ [last]).mapM segmentAccesses = some (parts ++ [lastPart]) := by
    rw [mapM_concat hlast, hinit, Option.map_some]
  refine ⟨⟨hsplit, hwhole⟩, hkey.1, ?_⟩
  rw [parsePath_of_parts hsplit hboth (segmentAccesses_key hkey), List.flatten_append, List.flatten_singleton, hflat,
    List.map_append]
  rfl

theorem splitOn_bracketed (i : ℕ) : (bracketed i).splitOn '.' = [bracketed i] := by
  refine List.splitOn_eq_singleton ?_
  rw [bracketed, List.cons_append, List.mem_cons, List.mem_append, List.mem_singleton]
  rintro (h | h | h)
  · exact absurd h (by decide)
  · exact not_mem_toString (by decide) i h
  · exact absurd h (by decide)

theorem index (h : Reads p init last) (i : ℕ) : Reads (p ++ [.index i]) init (last ++ bracketed i) := by
  have hsplit : (render (p ++ [.index i])).splitOn '.' = init ++ [last ++ bracketed i] := by
    rw [render_concat_index, h.pieces.append (splitOn_bracketed i)]
  have hwhole : (last ++ bracketed i).splitOn '.' = [last ++ bracketed i] :=
    (SplitOn.pieces_of_whole h.pieces.last_whole).append (splitOn_bracketed i)
  obtain ⟨parts, lastPart, hinit, hlast, hflat⟩ := h.parsed_parts
  have hnext : segmentAccesses (last ++ bracketed i) = some (lastPart ++ [.index i]) := by
    rw [segmentAccesses_append h.last_ne_nil, hlast, Option.map_some]
  refine ⟨⟨hsplit, hwhole⟩, List.append_ne_nil_of_left_ne_nil h.last_ne_nil _, ?_⟩
  rw [parsePath_of_parts hsplit hinit hnext, ← List.append_assoc, hflat, List.map_append]
  rfl

/-- The path of every position below the root reads so. -/
theorem of_plain {p : List Step} (hp : ∀ s ∈ p, PlainStep s) (hne : p ≠ []) : ∃ init last, Reads p init last := by
  induction p using List.reverseRecOn with
  | nil => exact absurd rfl hne
  | append_singleton p s ih =>
      have hs : PlainStep s := hp s (List.mem_append_right _ (List.mem_singleton_self s))
      by_cases hnil : p = []
      · subst hnil
        have hnone : ([] : List Text).mapM segmentAccesses = some [] := rfl
        rcases s with key | i
        · have hwhole : key.splitOn '.' = [] ++ [key] := List.splitOn_eq_singleton hs.2.1
          have hparsed : parsePath key = some [.key key] :=
            parsePath_of_parts hwhole hnone (segmentAccesses_key hs)
          exact ⟨[], key, ⟨hwhole, hwhole⟩, hs.1, hparsed⟩
        · have hwhole : (bracketed i).splitOn '.' = [] ++ [bracketed i] := splitOn_bracketed i
          have hparsed : parsePath (bracketed i) = some [.index i] :=
            parsePath_of_parts hwhole hnone (segmentAccesses_bracketed i)
          exact ⟨[], bracketed i, ⟨hwhole, hwhole⟩, List.cons_ne_nil _ _, hparsed⟩
      · obtain ⟨init, last, h⟩ := ih (fun t ht => hp t (List.mem_append_left _ ht)) hnil
        rcases s with key | i
        · exact ⟨_, _, h.key hs⟩
        · exact ⟨_, _, h.index i⟩

end Reads

/-- **A path reads as its steps.** -/
theorem parsePath_render {p : List Step} (hp : ∀ s ∈ p, PlainStep s) (hne : p ≠ []) :
    parsePath (render p) = some (p.map accessOf) := by
  obtain ⟨init, last, h⟩ := Reads.of_plain hp hne
  exact h.parsed

/-- Different positions have different paths. -/
theorem render_injective {p q : List Step} (hp : ∀ s ∈ p, PlainStep s) (hpne : p ≠ []) (hq : ∀ s ∈ q, PlainStep s)
    (hqne : q ≠ []) (h : render p = render q) : p = q := by
  have hparse := parsePath_render hp hpne
  rw [h, parsePath_render hq hqne] at hparse
  exact accessOf_injective.list_map (Option.some.inj hparse.symm)

theorem getItem_accessOf {v x : Json α} {s : Step} (h : v.child s = some x) : getItem v (accessOf s) = some x := by
  rcases v with a | text | items | items
  · exact nomatch h
  · exact nomatch h
  · rcases s with key | i
    · exact nomatch h
    · rw [accessOf, getItem, pyIndex, if_pos (Int.natCast_nonneg i), Int.toNat_natCast]
      exact h
  · rcases s with key | i
    · exact h
    · exact nomatch h

theorem foldlM_getItem {v x : Json α} {p : List Step} (h : v.get? p = some x) :
    (p.map accessOf).foldlM getItem v = some x := by
  induction p generalizing v with
  | nil => exact h
  | cons s p ih =>
      obtain ⟨y, hchild, hrest⟩ := Option.bind_eq_some_iff.1 h
      rw [List.map_cons, List.foldlM_cons, getItem_accessOf hchild]
      exact ih hrest

/-- A path leads to the value at its position. -/
theorem parseAndGetData_render {v x : Json α} {p : List Step} (hp : ∀ s ∈ p, PlainStep s) (hne : p ≠ [])
    (h : v.get? p = some x) : parseAndGetData v (render p) = some x := by
  rw [parseAndGetData, parsePath_render hp hne, Option.bind_some, foldlM_getItem h]

theorem nodup_render {v : Json α} (hv : WellFormed v) (hplain : PlainKeys v) :
    ((nodes v).map fun n => render n.1).Nodup := by
  have hmap : (nodes v).map (fun n => render n.1) = ((nodes v).map Prod.fst).map render := by
    rw [List.map_map]
    rfl
  rw [hmap]
  refine (nodup_nodes hv).map_on fun p hp q hq h => ?_
  obtain ⟨n, hn, rfl⟩ := List.mem_map.1 hp
  obtain ⟨m, hm, rfl⟩ := List.mem_map.1 hq
  exact render_injective (plainStep_of_mem_nodes hplain hn) (ne_nil_of_mem_nodes hn)
    (plainStep_of_mem_nodes hplain hm) (ne_nil_of_mem_nodes hm) h

/-! ## Plain documents -/

/-- A document whose paths are unambiguous. -/
structure Plain (v : Json α) : Prop where
  wellFormed : WellFormed v
  plainKeys : PlainKeys v

theorem plain_list_iff {items : List (Json α)} : Plain (.list items) ↔ ∀ x ∈ items, Plain x := by
  constructor
  · rintro ⟨hwell, hkeys⟩ x hx
    exact ⟨wellFormed_list_iff.1 hwell x hx, plainKeys_list_iff.1 hkeys x hx⟩
  · intro h
    exact ⟨wellFormed_list_iff.2 fun x hx => (h x hx).1, plainKeys_list_iff.2 fun x hx => (h x hx).2⟩

/-- A plain list with one more item. -/
theorem plain_list_of_mem {items items' : List (Json α)} (hitems : Plain (.list items)) {data : Json α}
    (hdata : Plain data) (h : ∀ z ∈ items', z ∈ items ∨ z = data) : Plain (.list items') := by
  refine plain_list_iff.2 fun z hz => ?_
  rcases h z hz with hz | rfl
  · exact plain_list_iff.1 hitems z hz
  · exact hdata

theorem plain_dict_iff {items : List (Text × Json α)} :
    Plain (.dict items) ↔ (items.map Prod.fst).Nodup ∧ ∀ p ∈ items, PlainKey p.1 ∧ Plain p.2 := by
  constructor
  · rintro ⟨hwell, hkeys⟩
    obtain ⟨hnodup, hwell⟩ := wellFormed_dict_iff.1 hwell
    have hkeys := plainKeys_dict_iff.1 hkeys
    exact ⟨hnodup, fun p hp => ⟨(hkeys p hp).1, hwell p hp, (hkeys p hp).2⟩⟩
  · rintro ⟨hnodup, h⟩
    exact ⟨wellFormed_dict_iff.2 ⟨hnodup, fun p hp => (h p hp).2.1⟩,
      plainKeys_dict_iff.2 fun p hp => ⟨(h p hp).1, (h p hp).2.2⟩⟩

theorem plain_store {key : Text} {x : Json α} {items : List (Text × Json α)} (hitems : Plain (.dict items))
    (hkey : PlainKey key) (hx : Plain x) : Plain (.dict (Assoc.store key x items)) := by
  obtain ⟨hnodup, h⟩ := plain_dict_iff.1 hitems
  refine plain_dict_iff.2 ⟨?_, fun p hp => ?_⟩
  · rw [Assoc.map_fst_store]
    split
    · exact hnodup
    · next hnew => exact hnodup.append (List.nodup_singleton key) (List.disjoint_singleton.2 hnew)
  · rcases Assoc.mem_store hp with rfl | hp
    · exact ⟨hkey, hx⟩
    · exact h p hp

namespace Plain

theorem child {v x : Json α} {s : Step} (hv : Plain v) (hx : v.child s = some x) : PlainStep s ∧ Plain x := by
  have hc := (mem_children_iff hv.wellFormed).2 hx
  obtain ⟨hs, hkeys⟩ := plainKeys_iff.1 hv.plainKeys _ hc
  exact ⟨hs, hv.wellFormed.child hc, hkeys⟩

theorem setChild {v x : Json α} {s : Step} (hv : Plain v) (hs : (v.child s).isSome) (hx : Plain x) :
    Plain (v.setChild s x) := by
  obtain ⟨y, hy⟩ := Option.isSome_iff_exists.1 hs
  have hstep := (hv.child hy).1
  rcases v with a | text | items | items
  · exact hv
  · exact hv
  · rcases s with key | i
    · exact hv
    · exact plain_list_of_mem hv hx fun z hz => List.mem_or_eq_of_mem_set hz
  · rcases s with key | i
    · exact plain_store hv hstep hx
    · exact hv

theorem get? {v x : Json α} {p : List Step} (hv : Plain v) (hx : v.get? p = some x) : Plain x := by
  induction p generalizing v with
  | nil => exact Option.some.inj hx ▸ hv
  | cons s p ih =>
      obtain ⟨y, hy, hrest⟩ := Option.bind_eq_some_iff.1 hx
      exact ih (hv.child hy).2 hrest

theorem update {f : Json α → Option (Json α)} (hf : ∀ x y, Plain x → f x = some y → Plain y) {p : List Step}
    {v w : Json α} (hv : Plain v) (hw : v.update f p = some w) : Plain w :=
  update_invariant (fun _ _ _ hv hx => (hv.child hx).2) (fun _ _ _ hv hs hx => hv.setChild hs hx) hf hv hw

end Plain

/-! ## What is collected -/

/-- **Paths name the nodes**: `find_pairs` finds the path of each node below the root and no other, no two nodes have
    the same path, and `parse_and_get_data` follows a path to the value collected with it. -/
theorem findPairs_nodes {v : Json α} (hv : WellFormed v) (hplain : PlainKeys v) :
    (∀ p x, p ≠ [] → v.get? p = some x → (findPairs v [] ∅).get? (render p) = some x) ∧
    (∀ path ∈ (findPairs v [] ∅).keys, ∃! p, p ≠ [] ∧ (v.get? p).isSome ∧ render p = path) ∧
    ∀ path x, (findPairs v [] ∅).get? path = some x → parseAndGetData v path = some x := by
  have hpairs : ∀ path x, (findPairs v [] ∅).get? path = some x ↔ ∃ n ∈ nodes v, render n.1 = path ∧ n.2 = x := by
    intro path x
    rw [findPairs, get?_collect_iff (nodup_render hv hplain)]
    simp only [kept, ite_self, true_and]
  refine ⟨fun p x hne hget => (hpairs _ _).2 ⟨(p, x), (mem_nodes_iff hv).2 ⟨hne, hget⟩, rfl, rfl⟩, ?_, ?_⟩
  · intro path hpath
    obtain ⟨x, hx⟩ := Dict.mem_keys_iff_exists.1 hpath
    obtain ⟨⟨p, _⟩, hn, rfl, rfl⟩ := (hpairs path x).1 hx
    obtain ⟨hne, hget⟩ := (mem_nodes_iff hv).1 hn
    refine ⟨p, ⟨hne, Option.isSome_of_eq_some hget, rfl⟩, ?_⟩
    rintro q ⟨hqne, hqsome, hq⟩
    obtain ⟨y, hqget⟩ := Option.isSome_iff_exists.1 hqsome
    have hm := (mem_nodes_iff hv).2 ⟨hqne, hqget⟩
    exact render_injective (plainStep_of_mem_nodes hplain hm) hqne (plainStep_of_mem_nodes hplain hn) hne hq
  · intro path x hx
    obtain ⟨⟨p, _⟩, hn, rfl, rfl⟩ := (hpairs path x).1 hx
    obtain ⟨hne, hget⟩ := (mem_nodes_iff hv).1 hn
    exact parseAndGetData_render (plainStep_of_mem_nodes hplain hn) hne hget

/-- A list with a dictionary in it, and a list in that. -/
def nested : Json ℤ := .list [.dict [("a".toList, .list [.scalar 1])]]

theorem findPairs_nodes_nested : parseAndGetData nested "[0].a[0]".toList = some (.scalar 1) := by
  have hwell : WellFormed nested := by simp [nested, wellFormed_list_iff, wellFormed_dict_iff]
  have hplain : PlainKeys nested := by simp [nested, plainKeys_list_iff, plainKeys_dict_iff, PlainKey]
  obtain ⟨hfound, -, hfollow⟩ := findPairs_nodes hwell hplain
  exact hfollow _ _ (hfound [.index 0, .key "a".toList, .index 0] _ (List.cons_ne_nil _ _) rfl)

/-- A node below the root whose value has the type. -/
def OfType (v : Json α) (type : DataType) (p : List Step) (x : Json α) : Prop :=
  p ≠ [] ∧ v.get? p = some x ∧ findDataType type x = true

theorem findDataType_any {type : DataType} {x : Json α} (h : findDataType type x = true) :
    findDataType .any x = true := by
  rcases x with a | text | items | items
  · exact h
  · exact h
  · rfl
  · rfl

/-- The first filter holds on the first level, below it containers of both kinds are collected. -/
theorem kept_iff {type : DataType} {n : List Step × Json α} :
    kept (findDataType type) (findDataType .any) n = true
      ↔ if n.1.length = 1 then findDataType type n.2 = true else findDataType .any n.2 = true := by
  rw [kept]
  split
  · exact Iff.rfl
  · exact Iff.rfl

/-- What `find_pairs_data_type` collects is of the type, except for the other containers below the first level. -/
theorem kept_of_ofType {v : Json α} (hv : WellFormed v) {type : DataType} {p : List Step} {x : Json α}
    (h : OfType v type p x) : (p, x) ∈ nodes v ∧ kept (findDataType type) (findDataType .any) (p, x) = true := by
  refine ⟨(mem_nodes_iff hv).2 ⟨h.1, h.2.1⟩, ?_⟩
  rw [kept_iff]
  split
  · exact h.2.2
  · exact findDataType_any h.2.2

theorem two_le_length {p : List Step} (hne : p ≠ []) (h : p.length ≠ 1) : 2 ≤ p.length := by
  have hpos := List.length_pos_of_ne_nil hne
  omega

/-- Below the first level all containers are collected. -/
theorem kept_of_deep {v : Json α} (hv : WellFormed v) (type : DataType) {p : List Step} {x : Json α}
    (hlength : 2 ≤ p.length) (hget : v.get? p = some x) (hany : findDataType .any x = true) :
    (p, x) ∈ nodes v ∧ kept (findDataType type) (findDataType .any) (p, x) = true := by
  have hne : p ≠ [] := by
    rintro rfl
    exact absurd hlength (by decide)
  refine ⟨(mem_nodes_iff hv).2 ⟨hne, hget⟩, ?_⟩
  rw [kept_iff, if_neg (by simp only; omega)]
  exact hany

/-- What is collected is of the type if the containers below the first level are. -/
theorem ofType_of_kept {v : Json α} (hv : WellFormed v) {type : DataType} {n : List Step × Json α} (hn : n ∈ nodes v)
    (hkept : kept (findDataType type) (findDataType .any) n = true) :
    OfType v type n.1 n.2 ∨ 2 ≤ n.1.length ∧ v.get? n.1 = some n.2 ∧ findDataType .any n.2 = true := by
  obtain ⟨hne, hget⟩ := (mem_nodes_iff hv).1 hn
  rw [kept_iff] at hkept
  by_cases hlength : n.1.length = 1
  · rw [if_pos hlength] at hkept
    exact .inl ⟨hne, hget, hkept⟩
  · rw [if_neg hlength] at hkept
    exact .inr ⟨two_le_length hne hlength, hget, hkept⟩

theorem keys_exact_iff {v : Json α} (hv : WellFormed v) (type : DataType) :
    (∀ path, path ∈ (findPairsDataType v [] ∅ type).keys ↔ ∃ p x, OfType v type p x ∧ render p = path) ↔
      ∀ p x, 2 ≤ p.length → v.get? p = some x → findDataType .any x = true →
        ∃ q y, OfType v type q y ∧ render q = render p := by
  constructor
  · intro h p x hlength hget hany
    obtain ⟨hn, hkept⟩ := kept_of_deep hv type hlength hget hany
    exact (h _).1 (mem_keys_collect_iff.2 ⟨(p, x), hn, hkept, rfl⟩)
  · intro h path
    rw [findPairsDataType, mem_keys_collect_iff]
    constructor
    · rintro ⟨⟨p, x⟩, hn, hkept, rfl⟩
      rcases ofType_of_kept hv hn hkept with htype | ⟨hlength, hget, hany⟩
      · exact ⟨p, x, htype, rfl⟩
      · exact h p x hlength hget hany
    · rintro ⟨p, x, htype, rfl⟩
      obtain ⟨hn, hkept⟩ := kept_of_ofType hv htype
      exact ⟨(p, x), hn, hkept, rfl⟩

theorem pairs_exact_iff {v : Json α} (hv : WellFormed v) (hplain : PlainKeys v) (type : DataType) :
    (∀ path x, (findPairsDataType v [] ∅ type).get? path = some x ↔ ∃ p, OfType v type p x ∧ render p = path) ↔
      ∀ p x, 2 ≤ p.length → v.get? p = some x → findDataType .any x = true → findDataType type x = true := by
  have hpairs : ∀ path x, (findPairsDataType v [] ∅ type).get? path = some x ↔
      ∃ n ∈ nodes v, kept (findDataType type) (findDataType .any) n = true ∧ render n.1 = path ∧ n.2 = x :=
    fun path x => get?_collect_iff (nodup_render hv hplain)
  constructor
  · intro h p x hlength hget hany
    obtain ⟨hn, hkept⟩ := kept_of_deep hv type hlength hget hany
    obtain ⟨q, htype, hq⟩ := (h _ _).1 ((hpairs _ _).2 ⟨(p, x), hn, hkept, rfl, rfl⟩)
    exact htype.2.2
  · intro h path x
    rw [hpairs]
    constructor
    · rintro ⟨⟨p, x⟩, hn, hkept, rfl, rfl⟩
      rcases ofType_of_kept hv hn hkept with htype | ⟨hlength, hget, hany⟩
      · exact ⟨p, htype, rfl⟩
      · exact ⟨p, ⟨ne_nil_of_mem_nodes hn, hget, h p x hlength hget hany⟩, rfl⟩
    · rintro ⟨p, htype, rfl⟩
      obtain ⟨hn, hkept⟩ := kept_of_ofType hv htype
      exact ⟨(p, x), hn, hkept, rfl, rfl⟩

/-- **Where the type holds at any depth**: what is collected are the paths of the nodes of the type if and only if the
    path of each container below the first level is one. With plain keys, if and only if each is of the type. -/
theorem findPairsDataType_exact_iff {v : Json α} (hv : WellFormed v) (type : DataType) :
    ((∀ path, path ∈ (findPairsDataType v [] ∅ type).keys ↔ ∃ p x, OfType v type p x ∧ render p = path) ↔
      ∀ p x, 2 ≤ p.length → v.get? p = some x → findDataType .any x = true →
        ∃ q y, OfType v type q y ∧ render q = render p) ∧
    (PlainKeys v →
      ((∀ path x, (findPairsDataType v [] ∅ type).get? path = some x ↔ ∃ p, OfType v type p x ∧ render p = path) ↔
        ∀ p x, 2 ≤ p.length → v.get? p = some x → findDataType .any x = true → findDataType type x = true)) :=
  ⟨keys_exact_iff hv type, fun hplain => pairs_exact_iff hv hplain type⟩

theorem findPairsDataType_exact_nested : "[0].a".toList ∈ (findPairsDataType nested [] ∅ .any).keys := by
  have hwell : WellFormed nested := by simp [nested, wellFormed_list_iff, wellFormed_dict_iff]
  have hexact := (findPairsDataType_exact_iff hwell .any).1.2 fun p x hlength hget hany => by
    refine ⟨p, x, ⟨?_, hget, hany⟩, rfl⟩
    rintro rfl
    exact absurd hlength (by decide)
  exact (hexact _).2 ⟨[.index 0, .key "a".toList], _, ⟨List.cons_ne_nil _ _, rfl, rfl⟩, rfl⟩

/-- A list in a dictionary in the document is collected with the dictionaries. -/
theorem findPairsDataType_collects_lists :
    ¬ ∀ (v : Json ℤ) (type : DataType), WellFormed v →
      ∀ path, path ∈ (findPairsDataType v [] ∅ type).keys ↔ ∃ p x, OfType v type p x ∧ render p = path := by
  intro h
  have hwell : WellFormed (.dict [("a".toList, .dict [("b".toList, (.list [] : Json ℤ))])]) := by
    simp [wellFormed_list_iff, wellFormed_dict_iff]
  obtain ⟨p, x, ⟨hne, hget, htype⟩, hpath⟩ := (h _ .dict hwell "a.b".toList).1 (by decide)
  have hn := (mem_nodes_iff hwell).2 ⟨hne, hget⟩
  rcases List.mem_cons.1 hn with heq | hn
  · cases heq
    exact absurd htype (by decide)
  · cases List.mem_singleton.1 hn
    exact absurd hpath (by decide)

end TestInfra.SubdocHelper
