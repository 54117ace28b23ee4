import TestInfra.Lib.Json

set_option autoImplicit false

/-! # The tree of `cbbackupmgr info`

`construct_tree` is given the nodes of the tabular output one after the other, each with the name of its level, and
`traverse_dict` appends each of them to the tree: it walks down the last children from the root, over the levels that
are there, and appends the node where the walk ends. -/

open PyText

namespace BackupInfo

variable {α : Type*}

/-! ## The walk -/

/-- The items of a Python dictionary. -/
abbrev Items (α : Type*) : Type _ := List (Text × Json α)

/-- The end of the walk: `conductor[node_type]` is a list, made if it is missing, and takes `dictionary`. Only a list
    has `append`. -/
def append (nodeType : Text) (dictionary : Items α) (conductor : Items α) : Option (Items α) :=
  match (Assoc.find nodeType conductor).getD (.list []) with
  | .list children => some (Assoc.store nodeType (.list (children ++ [.dict dictionary])) conductor)
  | _ => none

/-- The loop over `node_parents`, from `conductor` on. A dictionary or a text under a parent is `len`'s business: an
    empty one ends the loop, of another one the last item is no dictionary, and a scalar has no length. -/
def walk (nodeType : Text) (dictionary : Items α) : List Text → Items α → Option (Items α)
  | [], conductor => append nodeType dictionary conductor
  | parent :: parents, conductor =>
    match Assoc.find parent conductor with
    | none => walk nodeType dictionary parents conductor
    | some (.list children) =>
      match children.getLast? with
      | none => append nodeType dictionary conductor
      | some (.dict last) =>
        (walk nodeType dictionary parents last).map fun last =>
          Assoc.store parent (.list (children.dropLast ++ [.dict last])) conductor
      | some _ => none
    | some (.dict []) => append nodeType dictionary conductor
    | some (.str []) => append nodeType dictionary conductor
    | some _ => none

/-- `traverse_dict` with the levels `node_priority`; `index` raises for a level that is not one of them. -/
def traverse (priority : List Text) (tree : Items α) (nodeType : Text) (dictionary : Items α) : Option (Items α) :=
  if nodeType ∈ priority then walk nodeType dictionary (priority.take (priority.idxOf nodeType)) tree else none

def nodePriority : List Text :=
  ["archives".toList, "repos".toList, "backups".toList, "buckets".toList, "scopes".toList, "collections".toList]

def traverseDict (tree : Items α) (nodeType : Text) (dictionary : Items α) : Option (Items α) :=
  traverse nodePriority tree nodeType dictionary

/-- One `traverse_dict` after the other. -/
def feed (priority : List Text) (nodes : List (Text × Items α)) (tree : Items α) : Option (Items α) :=
  nodes.foldlM (fun tree node => traverse priority tree node.1 node.2) tree

/-- `tree['archives'][0] if 'archives' in tree else tree`. -/
def returned (tree : Items α) : Option (Json α) :=
  match Assoc.find "archives".toList tree with
  | none => some (.dict tree)
  | some (.list (archive :: _)) => some archive
  | some (.str (c :: _)) => some (.str [c])
  | some _ => none

/-- `construct_tree`, from the groups `line_to_dict` makes, their keys and values transformed. -/
def constructTree (groups : List (Text × List (Items α))) : Option (Json α) := do
  let tree ← groups.foldlM
    (fun tree group => group.2.foldlM (fun tree dictionary => traverseDict tree group.1 dictionary) tree) []
  returned tree

/-! ## What a step does -/

theorem append_of_list {nodeType : Text} {dictionary conductor : Items α} {children : List (Json α)}
    (h : (Assoc.find nodeType conductor).getD (.list []) = .list children) :
    append nodeType dictionary conductor
      = some (Assoc.store nodeType (.list (children ++ [.dict dictionary])) conductor) := by
  unfold append
  rw [h]

/-- Levels that are not there are skipped. -/
theorem walk_append {nodeType : Text} {dictionary conductor : Items α} {upper : List Text}
    (h : ∀ level ∈ upper, Assoc.find level conductor = none) (parents : List Text) :
    walk nodeType dictionary (upper ++ parents) conductor = walk nodeType dictionary parents conductor := by
  induction upper with
  | nil => rfl
  | cons level upper ih =>
      rw [List.forall_mem_cons] at h
      rw [List.cons_append, walk, h.1]
      exact ih h.2

/-- Under a level that is there the walk goes on in its last child. -/
theorem walk_cons {nodeType parent : Text} {dictionary conductor last : Items α} {done : List (Json α)}
    (h : Assoc.find parent conductor = some (.list (done ++ [.dict last]))) (parents : List Text) :
    walk nodeType dictionary (parent :: parents) conductor
      = (walk nodeType dictionary parents last).map fun last =>
          Assoc.store parent (.list (done ++ [.dict last])) conductor := by
  rw [walk, h]
  simp

/-! ## Forests of nodes -/

/-- A node's own dictionary has no level for a key. -/
@[ext] structure Info (α : Type*) where
  dictionary : Dict Text (Json α)
  plain : ∀ level ∈ nodePriority, level ∉ dictionary.keys

/-- A node with what is below it, given the levels from its own on: its children are one level below. -/
def Node (α : Type*) : List Text → Type _
  | [] => PEmpty
  | _ :: levels => Info α × List (Node α levels)

section Node

variable {level : Text} {levels : List Text}

def Node.mk (info : Info α) (children : List (Node α levels)) : Node α (level :: levels) := (info, children)

def Node.info (node : Node α (level :: levels)) : Info α := node.1

def Node.children (node : Node α (level :: levels)) : List (Node α levels) := node.2

end Node

/-- The children of a node, under the name of their level. A node without children does not have the key. -/
def entry : List Text → List (Json α) → Items α
  | [], _ => []
  | _, [] => []
  | level :: _, children => [(level, .list children)]

/-- A node as the dictionary of the tree. -/
def items : (levels : List Text) → Node α levels → Items α
  | [], node => node.elim
  | _ :: levels, node =>
    node.info.dictionary.items ++ entry levels (node.children.map fun child => .dict (items levels child))

/-- A forest as the tree. -/
def tree (levels : List Text) (forest : List (Node α levels)) : Items α :=
  entry levels (forest.map fun node => .dict (items levels node))

/-- The nodes with their levels, each before what is below it. -/
def preorder : (levels : List Text) → Node α levels → List (Text × Items α)
  | [], node => node.elim
  | level :: levels, node => (level, node.info.dictionary.items) :: node.children.flatMap (preorder levels)

/-! ## The tree of a forest -/

section Entries

variable {level : Text} {a : Items α} (levels : List Text)

theorem find_entry_of_ne {level' : Text} (h : level' ≠ level) (children : List (Json α)) :
    Assoc.find level' (entry (level :: levels) children) = none := by
  cases children <;> simp [entry, Assoc.find, Ne.symm h]

omit level a in
@[simp] theorem entry_nil : entry levels ([] : List (Json α)) = [] := by
  cases levels <;> rfl

theorem find_append_entry (ha : Assoc.find level a = none) (children : List (Json α)) :
    (Assoc.find level (a ++ entry (level :: levels) children)).getD (.list []) = .list children := by
  rw [Assoc.find_append, ha]
  cases children <;> simp [entry, Assoc.find]

theorem store_append_entry (ha : Assoc.find level a = none) (children children' : List (Json α)) (child : Json α) :
    Assoc.store level (.list (children' ++ [child])) (a ++ entry (level :: levels) children)
      = a ++ entry (level :: levels) (children' ++ [child]) := by
  rw [Assoc.store_append_of_find ha]
  cases children <;> cases children' <;> simp [entry, Assoc.store]

end Entries

/-- The levels of the nodes of a forest are the forest's. -/
theorem level_of_mem_preorder {levels : List Text} {node : Node α levels} {p : Text × Items α}
    (h : p ∈ preorder levels node) : p.1 ∈ levels := by
  induction levels with
  | nil => exact node.elim
  | cons level levels ih =>
      rw [preorder, List.mem_cons, List.mem_flatMap] at h
      rcases h with rfl | ⟨child, -, h⟩
      · exact List.mem_cons_self
      · exact List.mem_cons_of_mem _ (ih h)

/-! ## Feeding a forest -/

section Feed

variable {upper levels : List Text} {level : Text} {a : Items α}

/-- The levels above a level that is not among the first ones. -/
theorem take_idxOf_append (h : level ∉ upper) (levels : List Text) :
    (upper ++ levels).take ((upper ++ levels).idxOf level) = upper ++ levels.take (levels.idxOf level) := by
  rw [List.idxOf_append_of_notMem h, List.take_length_add_append]

/-- The walk over the levels above the forest ends where it began. -/
theorem walk_upper (hnodup : (upper ++ level :: levels).Nodup)
    (ha : ∀ level' ∈ upper ++ level :: levels, Assoc.find level' a = none) (nodeType : Text) (info : Items α)
    (parents : List Text) (children : List (Json α)) :
    walk nodeType info (upper ++ parents) (a ++ entry (level :: levels) children)
      = walk nodeType info parents (a ++ entry (level :: levels) children) := by
  refine walk_append (fun level' hlevel' => ?_) parents
  have hne : level' ≠ level := (List.nodup_append.1 hnodup).2.2 level' hlevel' level List.mem_cons_self
  rw [Assoc.find_append, ha level' (List.mem_append_left _ hlevel'), find_entry_of_ne levels hne]
  rfl

/-- A node of the forest's own level becomes the last child. -/
theorem traverse_level (hnodup : (upper ++ level :: levels).Nodup)
    (ha : ∀ level' ∈ upper ++ level :: levels, Assoc.find level' a = none) (done : List (Json α)) (info : Items α) :
    traverse (upper ++ level :: levels) (a ++ entry (level :: levels) done) level info
      = some (a ++ entry (level :: levels) (done ++ [.dict info])) := by
  have hmem : level ∈ upper ++ level :: levels := by simp
  have hupper : level ∉ upper := fun h =>
    (List.nodup_append.1 hnodup).2.2 level h level List.mem_cons_self rfl
  have hparents : (upper ++ level :: levels).take ((upper ++ level :: levels).idxOf level) = upper ++ [] := by
    rw [take_idxOf_append hupper]
    simp
  unfold traverse
  rw [if_pos hmem, hparents, walk_upper hnodup ha, walk, append_of_list (find_append_entry levels (ha level hmem) done),
    store_append_entry levels (ha level hmem)]

/-- A node of a lower level goes to the last child. -/
theorem traverse_below {level' : Text} (hnodup : (upper ++ level :: levels).Nodup)
    (ha : ∀ level' ∈ upper ++ level :: levels, Assoc.find level' a = none) (hlevel' : level' ∈ levels)
    (done : List (Json α)) (last info : Items α) :
    traverse (upper ++ level :: levels) (a ++ entry (level :: levels) (done ++ [.dict last])) level' info
      = (traverse levels last level' info).map fun last =>
          a ++ entry (level :: levels) (done ++ [.dict last]) := by
  obtain ⟨-, hlower, hdisjoint⟩ := List.nodup_append.1 hnodup
  have hupper : level' ∉ upper := fun h => hdisjoint level' h level' (List.mem_cons_of_mem _ hlevel') rfl
  have hne : level ≠ level' := by
    rintro rfl
    exact (List.nodup_cons.1 hlower).1 hlevel'
  have hparents : (upper ++ level :: levels).take ((upper ++ level :: levels).idxOf level')
      = upper ++ level :: levels.take (levels.idxOf level') := by
    rw [take_idxOf_append hupper, List.idxOf_cons_ne _ hne, List.take_succ_cons]
  have hlevel : Assoc.find level a = none := ha level (by simp)
  have hfind : Assoc.find level (a ++ entry (level :: levels) (done ++ [.dict last]))
      = some (.list (done ++ [.dict last])) := by
    rw [Assoc.find_append, hlevel]
    cases done <;> simp [entry, Assoc.find]
  have hmem : level' ∈ upper ++ level :: levels := by simp [hlevel']
  unfold traverse
  rw [if_pos hmem, if_pos hlevel', hparents, walk_upper hnodup ha, walk_cons hfind]
  simp only [store_append_entry levels hlevel]

/-- Nodes of lower levels, one after the other, are fed to the last child. -/
theorem feed_below (hnodup : (upper ++ level :: levels).Nodup)
    (ha : ∀ level' ∈ upper ++ level :: levels, Assoc.find level' a = none) (done : List (Json α))
    {nodes : List (Text × Items α)} (hnodes : ∀ p ∈ nodes, p.1 ∈ levels) (last : Items α) :
    feed (upper ++ level :: levels) nodes (a ++ entry (level :: levels) (done ++ [.dict last]))
      = (feed levels nodes last).map fun last => a ++ entry (level :: levels) (done ++ [.dict last]) := by
  induction nodes generalizing last with
  | nil => rfl
  | cons node nodes ih =>
      rw [List.forall_mem_cons] at hnodes
      unfold feed at ih ⊢
      rw [List.foldlM_cons, List.foldlM_cons, traverse_below hnodup ha hnodes.1]
      cases traverse levels last node.1 node.2 with
      | none => rfl
      | some last => exact ih hnodes.2 last

theorem feed_cons (node : Text × Items α) (nodes : List (Text × Items α)) (tree : Items α) :
    feed levels (node :: nodes) tree = (traverse levels tree node.1 node.2).bind (feed levels nodes) :=
  List.foldlM_cons ..

theorem feed_append (nodes nodes' : List (Text × Items α)) (tree : Items α) :
    feed levels (nodes ++ nodes') tree = (feed levels nodes tree).bind (feed levels nodes') :=
  List.foldlM_append ..

/-- A forest fed to a dictionary without its levels, next to nodes of its level that are there: its roots follow
    them. -/
theorem feed_forest (hnodup : (upper ++ levels).Nodup) (hlevels : ∀ level ∈ levels, level ∈ nodePriority)
    (ha : ∀ level ∈ upper ++ levels, Assoc.find level a = none) (forest : List (Node α levels))
    (done : List (Json α)) :
    feed (upper ++ levels) (forest.flatMap (preorder levels)) (a ++ entry levels done)
      = some (a ++ entry levels (done ++ forest.map fun node => .dict (items levels node))) := by
  induction levels generalizing upper a done with
  | nil =>
      cases forest with
      | nil => simp [feed, entry]
      | cons node _ => exact node.elim
  | cons level levels ih =>
      have hlower : ([] ++ levels).Nodup := (List.nodup_cons.1 (List.nodup_append.1 hnodup).2.1).2
      rw [List.forall_mem_cons] at hlevels
      induction forest generalizing done with
      | nil => simp [feed]
      | cons node forest ihforest =>
          have hplain : ∀ level ∈ [] ++ levels, Assoc.find level node.info.dictionary.items = none :=
            fun level hlevel => (Dict.not_mem_keys_iff _ _).1 (node.info.plain level (hlevels.2 level hlevel))
          have hchildren : feed levels (node.children.flatMap (preorder levels)) node.info.dictionary.items
              = some (items (level :: levels) node) := by
            have h := ih hlower hlevels.2 hplain node.children []
            rwa [entry_nil, List.append_nil, List.nil_append, List.nil_append] at h
          have hbelow : ∀ p ∈ node.children.flatMap (preorder levels), p.1 ∈ levels := by
            intro p hp
            obtain ⟨child, -, hp⟩ := List.mem_flatMap.1 hp
            exact level_of_mem_preorder hp
          have hnode : feed (upper ++ level :: levels) (preorder (level :: levels) node)
              (a ++ entry (level :: levels) done)
              = some (a ++ entry (level :: levels) (done ++ [.dict (items (level :: levels) node)])) := by
            rw [preorder, feed_cons, traverse_level hnodup ha, Option.bind_some, feed_below hnodup ha done hbelow,
              hchildren, Option.map_some]
          rw [List.flatMap_cons, feed_append, hnode, Option.bind_some, ihforest, List.map_cons, List.append_assoc]
          rfl

end Feed

/-! ## The tree rebuilt -/

theorem entry_injective (level : Text) (levels : List Text) :
    Function.Injective (entry (level :: levels) : List (Json α) → Items α) := by
  intro children children' h
  cases children <;> cases children' <;> simp_all [entry]

/-- Below the last level there are no nodes. -/
theorem forest_nil (forest : List (Node α [])) : forest = [] :=
  List.eq_nil_iff_forall_not_mem.2 fun node _ => node.elim

theorem items_injective {levels : List Text} (hlevels : ∀ level ∈ levels, level ∈ nodePriority) :
    Function.Injective (items levels : Node α levels → Items α) := by
  induction levels with
  | nil => exact fun node => node.elim
  | cons level levels ih =>
      rw [List.forall_mem_cons] at hlevels
      intro node node' h
      unfold items at h
      have hchildren : node.children = node'.children := by
        cases levels with
        | nil => rw [forest_nil node.children, forest_nil node'.children]
        | cons level' levels =>
            -- no own key is the name of the next level, so what stands there are the children
            have hplain : ∀ info : Info α, Assoc.find level' info.dictionary.items = none :=
              fun info => (Dict.not_mem_keys_iff _ _).1 (info.plain level' (hlevels.2 level' List.mem_cons_self))
            have hfound := congrArg (fun conductor => (Assoc.find level' conductor).getD (.list [])) h
            simp only [find_append_entry _ (hplain _), Json.list.injEq] at hfound
            exact List.map_injective_iff.2 (fun child child' heq => ih hlevels.2 (Json.dict.inj heq)) hfound
      rw [hchildren] at h
      have hinfo : node.info = node'.info := Info.ext (Dict.ext (List.append_cancel_right h))
      exact Prod.ext hinfo hchildren

/-- Different forests have different trees. -/
theorem tree_injective {levels : List Text} (hlevels : ∀ level ∈ levels, level ∈ nodePriority) :
    Function.Injective (tree levels : List (Node α levels) → Items α) := by
  intro forest forest' h
  cases levels with
  | nil => rw [forest_nil forest, forest_nil forest']
  | cons level levels =>
      have hroots := entry_injective level levels h
      exact List.map_injective_iff.2 (fun node node' heq => items_injective hlevels (Json.dict.inj heq)) hroots

theorem feed_eq_tree (start : ℕ) (forest : List (Node α (nodePriority.drop start))) :
    feed nodePriority (forest.flatMap (preorder (nodePriority.drop start))) []
      = some (tree (nodePriority.drop start) forest) := by
  have hsplit : nodePriority.take start ++ nodePriority.drop start = nodePriority := List.take_append_drop ..
  have hnodup : (nodePriority.take start ++ nodePriority.drop start).Nodup := by
    rw [hsplit]
    decide
  have hfeed := feed_forest (a := []) hnodup (fun level hlevel => List.mem_of_mem_drop hlevel) (fun _ _ => rfl)
    forest []
  rwa [hsplit, entry_nil] at hfeed

/-- Fed to `traverse_dict` in pre-order, the nodes of a forest rebuild it from the empty tree. Its roots are at any of
    the levels, and the tree is that of no other forest. -/
theorem traverseDict_rebuilds (start : ℕ) (forest : List (Node α (nodePriority.drop start))) :
    (forest.flatMap (preorder (nodePriority.drop start))).foldlM
        (fun tree node => traverseDict tree node.1 node.2) []
      = some (tree (nodePriority.drop start) forest)
    ∧ ∀ forest', tree (nodePriority.drop start) forest' = tree (nodePriority.drop start) forest ↔ forest' = forest :=
  ⟨feed_eq_tree start forest,
    fun _ => (tree_injective fun _ hlevel => List.mem_of_mem_drop hlevel).eq_iff⟩

/-- What `construct_tree` returns for the groups of a forest. -/
theorem constructTree_of_forest (start : ℕ) (forest : List (Node α (nodePriority.drop start)))
    {groups : List (Text × List (Items α))}
    (hgroups : groups.flatMap (fun group => group.2.map fun dictionary => (group.1, dictionary))
      = forest.flatMap (preorder (nodePriority.drop start))) :
    constructTree groups = returned (tree (nodePriority.drop start) forest) := by
  have hgroup : ∀ tree : Items α, groups.foldlM
      (fun tree group => group.2.foldlM (fun tree dictionary => traverseDict tree group.1 dictionary) tree) tree
      = feed nodePriority (groups.flatMap fun group => group.2.map fun dictionary => (group.1, dictionary)) tree := by
    clear hgroups
    induction groups with
    | nil => exact fun _ => rfl
    | cons group groups ih =>
        intro tree
        rw [List.foldlM_cons, List.flatMap_cons, feed_append, feed, List.foldlM_map]
        exact congrArg _ (funext ih)
  rw [constructTree, hgroup, hgroups, feed_eq_tree]
  rfl

end BackupInfo
