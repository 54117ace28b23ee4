import TestInfra.Lib.Json
import Mathlib.Data.List.Pairwise

set_option autoImplicit false

/-! # Positions in JSON values

A position is the list of the steps from the root to a value: keys of dictionaries and indexes of lists. `nodes` lists
the positions below the root. `update` edits the value at a position; edits at positions neither of which leads on to
the other can be made in either order (`update_comm`). -/

open PyText

namespace Json

variable {α : Type*}

/-- A step from a container to an item. -/
inductive Step where
  | key (key : Text)
  | index (i : ℕ)
deriving DecidableEq, Repr

/-! ## Items -/

/-- The item at a step. -/
def child : Json α → Step → Option (Json α)
  | .dict items, .key key => Assoc.find key items
  | .list items, .index i => items[i]?
  | _, _ => none

/-- The items with their steps. -/
def children : Json α → List (Step × Json α)
  | .dict items => items.map fun p => (.key p.1, p.2)
  | .list items => items.mapIdx fun i x => (.index i, x)
  | _ => []

/-- Put another item in the place of one that is there. -/
def setChild : Json α → Step → Json α → Json α
  | .dict items, .key key, x => .dict (Assoc.store key x items)
  | .list items, .index i, x => .list (items.set i x)
  | v, _, _ => v

/-- What holds of a value whenever it holds of its items holds of every value. -/
theorem induct_children {motive : Json α → Prop} (h : ∀ v, (∀ c ∈ children v, motive c.2) → motive v) (v : Json α) :
    motive v := by
  induction v using induct with
  | scalar a => exact h _ fun _ hc => absurd hc List.not_mem_nil
  | str text => exact h _ fun _ hc => absurd hc List.not_mem_nil
  | list items ih =>
      refine h _ fun c hc => ?_
      obtain ⟨i, hi, rfl⟩ := List.mem_mapIdx.1 hc
      exact ih _ (List.getElem_mem hi)
  | dict items ih =>
      refine h _ fun c hc => ?_
      obtain ⟨p, hp, rfl⟩ := List.mem_map.1 hc
      exact ih p hp

theorem mem_children_iff {v : Json α} (hv : WellFormed v) {s : Step} {x : Json α} :
    (s, x) ∈ children v ↔ child v s = some x := by
  rcases v with a | text | items | items
  · simp [children, child]
  · simp [children, child]
  · rw [children, List.mem_mapIdx]
    rcases s with key | i
    · simp [child]
    · rw [child, List.getElem?_eq_some_iff]
      simp only [Prod.mk.injEq, Step.index.injEq]
      constructor
      · rintro ⟨j, hj, rfl, rfl⟩
        exact ⟨hj, rfl⟩
      · rintro ⟨hi, rfl⟩
        exact ⟨i, hi, rfl, rfl⟩
  · rw [children, List.mem_map]
    rcases s with key | i
    · rw [child, Assoc.find_eq_some_iff _ _ _ (wellFormed_dict_iff.1 hv).1]
      simp only [Prod.mk.injEq, Step.key.injEq]
      constructor
      · rintro ⟨p, hp, rfl, rfl⟩
        exact hp
      · exact fun hp => ⟨_, hp, rfl, rfl⟩
    · simp [child]

theorem nodup_children {v : Json α} (hv : WellFormed v) : ((children v).map Prod.fst).Nodup := by
  rcases v with a | text | items | items
  · exact List.nodup_nil
  · exact List.nodup_nil
  · have hindexes : (children (.list items)).map Prod.fst = (List.range items.length).map Step.index := by
      refine List.ext_getElem (by simp [children]) fun i _ _ => ?_
      simp [children]
    rw [hindexes]
    exact List.nodup_range.map fun _ _ h => Step.index.inj h
  · have hkeys : (children (.dict items)).map Prod.fst = (items.map Prod.fst).map Step.key := by
      rw [children, List.map_map, List.map_map]
      rfl
    rw [hkeys]
    exact (wellFormed_dict_iff.1 hv).1.map fun _ _ h => Step.key.inj h

theorem WellFormed.child {v : Json α} (hv : WellFormed v) {c : Step × Json α} (hc : c ∈ children v) :
    WellFormed c.2 := by
  rcases v with a | text | items | items
  · exact absurd hc List.not_mem_nil
  · exact absurd hc List.not_mem_nil
  · obtain ⟨i, hi, rfl⟩ := List.mem_mapIdx.1 hc
    exact wellFormed_list_iff.1 hv _ (List.getElem_mem hi)
  · obtain ⟨p, hp, rfl⟩ := List.mem_map.1 hc
    exact (wellFormed_dict_iff.1 hv).2 p hp

theorem child_setChild {v : Json α} {s : Step} (hs : (v.child s).isSome) (x : Json α) (t : Step) :
    (v.setChild s x).child t = if t = s then some x else v.child t := by
  rcases v with a | text | items | items
  · exact absurd hs Bool.false_ne_true
  · exact absurd hs Bool.false_ne_true
  · rcases s with key | i
    · exact absurd hs Bool.false_ne_true
    rcases t with key | j
    · rfl
    · have hi : i < items.length := by
        obtain ⟨_, hget⟩ := Option.isSome_iff_exists.1 hs
        exact (List.getElem?_eq_some_iff.1 hget).1
      rw [setChild, Json.child, List.getElem?_set]
      by_cases hij : i = j
      · rw [if_pos hij, if_pos hi, if_pos (by rw [hij])]
      · rw [if_neg hij, if_neg (fun h => hij (Step.index.inj h).symm)]
        rfl
  · rcases s with key | i
    · rcases t with key' | j
      · rw [setChild, Json.child, Assoc.find_store]
        simp only [Step.key.injEq]
        rfl
      · rfl
    · exact absurd hs Bool.false_ne_true

theorem setChild_setChild {v : Json α} {s : Step} (hs : (v.child s).isSome) (x y : Json α) :
    (v.setChild s x).setChild s y = v.setChild s y := by
  rcases v with a | text | items | items
  · exact absurd hs Bool.false_ne_true
  · exact absurd hs Bool.false_ne_true
  · rcases s with key | i
    · exact absurd hs Bool.false_ne_true
    · rw [setChild, setChild, setChild, List.set_set]
  · rcases s with key | i
    · rw [setChild, setChild, setChild, Assoc.store_store]
    · exact absurd hs Bool.false_ne_true

theorem setChild_comm {v : Json α} {s t : Step} (hst : s ≠ t) (hs : (v.child s).isSome) (ht : (v.child t).isSome)
    (x y : Json α) : (v.setChild s x).setChild t y = (v.setChild t y).setChild s x := by
  rcases v with a | text | items | items
  · exact absurd hs Bool.false_ne_true
  · exact absurd hs Bool.false_ne_true
  · rcases s with key | i
    · exact absurd hs Bool.false_ne_true
    rcases t with key | j
    · exact absurd ht Bool.false_ne_true
    · rw [setChild, setChild, setChild, setChild, List.set_comm _ _ fun h => hst (congrArg Step.index h)]
  · rcases s with key | i
    · rcases t with key' | j
      · rw [setChild, setChild, setChild, setChild, Assoc.store_comm (fun h => hst (congrArg Step.key h)) hs]
      · exact absurd ht Bool.false_ne_true
    · exact absurd hs Bool.false_ne_true

/-! ## Positions -/

/-- The value at a position. -/
def get? : Json α → List Step → Option (Json α)
  | v, [] => some v
  | v, s :: p => (v.child s).bind fun x => get? x p

@[simp] theorem get?_nil (v : Json α) : v.get? [] = some v := rfl

theorem get?_cons (v : Json α) (s : Step) (p : List Step) :
    v.get? (s :: p) = (v.child s).bind fun x => x.get? p := rfl

mutual

/-- The positions below the root, with the values there. -/
def nodes : Json α → List (List Step × Json α)
  | .scalar _ => []
  | .str _ => []
  | .list items => nodesList 0 items
  | .dict items => nodesDict items

def nodesList : ℕ → List (Json α) → List (List Step × Json α)
  | _, [] => []
  | i, x :: items =>
      (nodes x).map (fun n => (.index i :: n.1, n.2)) ++ ([.index i], x) :: nodesList (i + 1) items

def nodesDict : List (Text × Json α) → List (List Step × Json α)
  | [] => []
  | (key, x) :: items => (nodes x).map (fun n => (.key key :: n.1, n.2)) ++ ([.key key], x) :: nodesDict items

end

/-- The positions that begin with the step to an item. -/
def nodesBehind (c : Step × Json α) : List (List Step × Json α) :=
  (nodes c.2).map (fun n => (c.1 :: n.1, n.2)) ++ [([c.1], c.2)]

theorem nodes_eq (v : Json α) : nodes v = (children v).flatMap nodesBehind := by
  rcases v with a | text | items | items
  · rfl
  · rfl
  · have hlist : ∀ i, nodesList i items = (items.mapIdx fun j x => (Step.index (i + j), x)).flatMap nodesBehind := by
      induction items with
      | nil => exact fun i => rfl
      | cons x items ih =>
          intro i
          rw [nodesList, ih, List.mapIdx_cons, List.flatMap_cons, nodesBehind, List.append_assoc]
          simp only [Nat.add_zero, Nat.add_assoc, Nat.add_comm 1, List.singleton_append]
    rw [nodes, hlist, children]
    simp only [Nat.zero_add]
  · rw [nodes, children]
    induction items with
    | nil => rfl
    | cons p items ih =>
        rw [nodesDict, ih, List.map_cons, List.flatMap_cons, nodesBehind, List.append_assoc]
        rfl

theorem ne_nil_of_mem_nodes {v : Json α} {n : List Step × Json α} (h : n ∈ nodes v) : n.1 ≠ [] := by
  rw [nodes_eq, List.mem_flatMap] at h
  obtain ⟨c, -, h⟩ := h
  rw [nodesBehind, List.mem_append, List.mem_singleton, List.mem_map] at h
  rcases h with ⟨n', -, rfl⟩ | rfl
  · exact List.cons_ne_nil _ _
  · exact List.cons_ne_nil _ _

/-- The nodes are the values at the positions below the root. -/
theorem mem_nodes_iff {v : Json α} (hv : WellFormed v) {p : List Step} {x : Json α} :
    (p, x) ∈ nodes v ↔ p ≠ [] ∧ v.get? p = some x := by
  induction v using induct_children generalizing p x with
  | h v ih =>
      rw [nodes_eq, List.mem_flatMap]
      constructor
      · rintro ⟨⟨s, y⟩, hc, h⟩
        have hchild := (mem_children_iff hv).1 hc
        rw [nodesBehind, List.mem_append, List.mem_singleton, List.mem_map] at h
        rcases h with ⟨⟨p', x'⟩, hn, heq⟩ | heq
        · cases heq
          refine ⟨List.cons_ne_nil s p', ?_⟩
          rw [get?_cons, hchild, Option.bind_some]
          exact ((ih _ hc (hv.child hc)).1 hn).2
        · cases heq
          refine ⟨List.cons_ne_nil s [], ?_⟩
          rw [get?_cons, hchild]
          rfl
      · rintro ⟨hne, hget⟩
        obtain ⟨s, p', rfl⟩ := List.exists_cons_of_ne_nil hne
        obtain ⟨y, hchild, hget⟩ := Option.bind_eq_some_iff.1 hget
        have hc := (mem_children_iff hv).2 hchild
        refine ⟨(s, y), hc, ?_⟩
        rw [nodesBehind, List.mem_append, List.mem_singleton, List.mem_map]
        rcases p' with _ | ⟨t, p'⟩
        · rw [← Option.some.inj hget]
          exact .inr rfl
        · exact .inl ⟨(t :: p', x), (ih _ hc (hv.child hc)).2 ⟨List.cons_ne_nil t p', hget⟩, rfl⟩

/-- No position is listed twice. -/
theorem nodup_nodes {v : Json α} (hv : WellFormed v) : ((nodes v).map Prod.fst).Nodup := by
  induction v using induct_children with
  | h v ih =>
      have hbehind : ∀ c ∈ children v, ((nodesBehind c).map Prod.fst).Nodup := by
        intro c hc
        rw [nodesBehind, List.map_append, List.map_map]
        have hmap : (nodes c.2).map (Prod.fst ∘ fun n => (c.1 :: n.1, n.2)) =
            ((nodes c.2).map Prod.fst).map (c.1 :: ·) := by
          rw [List.map_map]
          rfl
        rw [hmap]
        refine ((ih c hc (hv.child hc)).map (List.cons_injective)).append (List.nodup_singleton _) ?_
        rw [List.disjoint_right]
        intro p hp hmem
        rw [List.map_singleton, List.mem_singleton] at hp
        obtain ⟨p', hp', rfl⟩ := List.mem_map.1 hmem
        obtain ⟨n, hn, rfl⟩ := List.mem_map.1 hp'
        exact ne_nil_of_mem_nodes hn (List.cons.inj hp).2
      have hhead : ∀ c : Step × Json α, ∀ p ∈ (nodesBehind c).map Prod.fst, p.head? = some c.1 := by
        intro c p hp
        obtain ⟨n, hn, rfl⟩ := List.mem_map.1 hp
        rw [nodesBehind, List.mem_append, List.mem_singleton, List.mem_map] at hn
        rcases hn with ⟨n', -, rfl⟩ | rfl
        · rfl
        · rfl
      rw [nodes_eq, List.map_flatMap]
      refine List.nodup_flatMap.2 ⟨hbehind, ?_⟩
      have hsteps := nodup_children hv
      rw [List.Nodup, List.pairwise_map] at hsteps
      refine hsteps.imp fun {c d} hcd p hp hp' => hcd ?_
      exact Option.some.inj ((hhead c p hp).symm.trans (hhead d p hp'))

/-! ## Edits -/

/-- Edit the value at a position; `none` when there is none, or the edit fails. -/
def update (f : Json α → Option (Json α)) : List Step → Json α → Option (Json α)
  | [], v => f v
  | s :: p, v => (v.child s).bind fun x => (update f p x).map (v.setChild s)

/-- Neither position leads on to the other. -/
def Apart (p q : List Step) : Prop := ¬ p <+: q ∧ ¬ q <+: p

theorem Apart.symm {p q : List Step} (h : Apart p q) : Apart q p := ⟨h.2, h.1⟩

theorem Apart.tail {s : Step} {p q : List Step} (h : Apart (s :: p) (s :: q)) : Apart p q :=
  ⟨fun hp => h.1 (List.cons_prefix_cons.2 ⟨rfl, hp⟩), fun hq => h.2 (List.cons_prefix_cons.2 ⟨rfl, hq⟩)⟩

/-- The cases of two positions apart: they part at the first step or later. -/
theorem Apart.cases {p q : List Step} (h : Apart p q) :
    ∃ s p' t q', p = s :: p' ∧ q = t :: q' ∧ (s = t → Apart p' q') := by
  rcases p with _ | ⟨s, p'⟩
  · exact absurd (List.nil_prefix) h.1
  rcases q with _ | ⟨t, q'⟩
  · exact absurd (List.nil_prefix) h.2
  refine ⟨s, p', t, q', rfl, rfl, ?_⟩
  rintro rfl
  exact h.tail

variable {f g : Json α → Option (Json α)}

theorem update_cons_of_child {v x : Json α} {s : Step} (hx : v.child s = some x) (p : List Step) :
    update f (s :: p) v = (update f p x).map (v.setChild s) := by
  rw [update, hx, Option.bind_some]

theorem update_cons_of_none {v : Json α} {s : Step} (hx : v.child s = none) (p : List Step) :
    update f (s :: p) v = none := by
  rw [update, hx, Option.bind_none]

/-- The edit takes the value that is there. -/
theorem update_isSome_iff {p : List Step} {v : Json α} :
    (update f p v).isSome ↔ ∃ x, v.get? p = some x ∧ (f x).isSome := by
  induction p generalizing v with
  | nil => simp [update]
  | cons s p ih =>
      rcases hx : v.child s with _ | x
      · simp [update_cons_of_none hx, get?_cons, hx]
      · rw [update_cons_of_child hx, Option.isSome_map, ih, get?_cons, hx, Option.bind_some]

/-- What the items of a value have, and a value keeps when an item is replaced, it keeps under an edit. -/
theorem update_invariant {P : Json α → Prop} (hchild : ∀ v s x, P v → v.child s = some x → P x)
    (hset : ∀ v s x, P v → (v.child s).isSome → P x → P (v.setChild s x)) (hf : ∀ x y, P x → f x = some y → P y)
    {p : List Step} {v w : Json α} (hv : P v) (hw : update f p v = some w) : P w := by
  induction p generalizing v w with
  | nil => exact hf v w hv hw
  | cons s p ih =>
      obtain ⟨x, hx, hmap⟩ := Option.bind_eq_some_iff.1 hw
      obtain ⟨x', hx', rfl⟩ := Option.map_eq_some_iff.1 hmap
      exact hset v s x' hv (Option.isSome_of_eq_some hx) (ih (hchild v s x hv hx) hx')

theorem child_setChild_self {v x : Json α} {s : Step} (hx : v.child s = some x) (y : Json α) :
    (v.setChild s y).child s = some y := by
  rw [child_setChild (Option.isSome_of_eq_some hx), if_pos rfl]

theorem child_setChild_of_ne {v x : Json α} {s t : Step} (hx : v.child s = some x) (hts : t ≠ s) (y : Json α) :
    (v.setChild s y).child t = v.child t := by
  rw [child_setChild (Option.isSome_of_eq_some hx), if_neg hts]

/-- An edit under a step, then an edit under another step. -/
theorem update_bind_of_ne {v x y : Json α} {s t : Step} (hx : v.child s = some x) (hy : v.child t = some y)
    (hst : s ≠ t) (p q : List Step) :
    (update f (s :: p) v).bind (update g (t :: q))
      = (update f p x).bind fun x' => (update g q y).map fun y' => (v.setChild s x').setChild t y' := by
  rw [update_cons_of_child hx]
  rcases update f p x with _ | x'
  · rfl
  · rw [Option.map_some, Option.bind_some, Option.bind_some,
      update_cons_of_child ((child_setChild_of_ne hx hst.symm x').trans hy)]

/-- An edit under a step, then an edit under the same step. -/
theorem update_bind_of_same {v x : Json α} {s : Step} (hx : v.child s = some x) (p q : List Step) :
    (update f (s :: p) v).bind (update g (s :: q)) = ((update f p x).bind (update g q)).map (v.setChild s) := by
  rw [update_cons_of_child hx]
  rcases update f p x with _ | x'
  · rfl
  · rw [Option.map_some, Option.bind_some, Option.bind_some, update_cons_of_child (child_setChild_self hx x')]
    exact congrArg (fun h => (update g q x').map h)
      (funext fun y => setChild_setChild (Option.isSome_of_eq_some hx) x' y)

/-- **Edits apart from each other** can be made in either order. -/
theorem update_comm {p q : List Step} (h : Apart p q) (v : Json α) :
    (update f p v).bind (update g q) = (update g q v).bind (update f p) := by
  induction p generalizing q v with
  | nil => exact absurd List.nil_prefix h.1
  | cons s p ih =>
      obtain ⟨_, _, t, q', ⟨⟩, rfl, hsame⟩ := h.cases
      by_cases hst : s = t
      · subst hst
        rcases hx : v.child s with _ | x
        · rw [update_cons_of_none hx, update_cons_of_none hx]
          rfl
        · rw [update_bind_of_same hx, update_bind_of_same hx, ih (hsame rfl)]
      rcases hx : v.child s with _ | x
      · rw [update_cons_of_none hx, Option.bind_none]
        rcases hw : update g (t :: q') v with _ | w
        · rfl
        · obtain ⟨y, hy, hmap⟩ := Option.bind_eq_some_iff.1 hw
          obtain ⟨y', -, rfl⟩ := Option.map_eq_some_iff.1 hmap
          rw [Option.bind_some, update_cons_of_none ((child_setChild_of_ne hy hst y').trans hx)]
      rcases hy : v.child t with _ | y
      · rw [update_cons_of_none hy, Option.bind_none, update_cons_of_child hx]
        rcases update f p x with _ | x'
        · rfl
        · rw [Option.map_some, Option.bind_some,
            update_cons_of_none ((child_setChild_of_ne hx (Ne.symm hst) x').trans hy)]
      · rw [update_bind_of_ne hx hy hst, update_bind_of_ne hy hx (Ne.symm hst)]
        rcases update f p x with _ | x'
        · rcases update g q' y with _ | y'
          · rfl
          · rfl
        · rcases update g q' y with _ | y'
          · rfl
          · exact congrArg some (setChild_comm hst (Option.isSome_of_eq_some hx) (Option.isSome_of_eq_some hy) x' y')

/-- Edits that are pairwise apart can be made in any order. -/
theorem foldl_update_perm {edits edits' : List (List Step × (Json α → Option (Json α)))} (hperm : edits.Perm edits')
    (h : edits.Pairwise fun a b => Apart a.1 b.1) (v : Option (Json α)) :
    edits.foldl (fun v e => v.bind (update e.2 e.1)) v = edits'.foldl (fun v e => v.bind (update e.2 e.1)) v := by
  refine hperm.foldl_eq' (fun a ha b hb w => ?_) v
  by_cases hab : a = b
  · rw [hab]
  · have hsymm : Std.Symm fun a b : List Step × (Json α → Option (Json α)) => Apart a.1 b.1 :=
      ⟨fun _ _ h => h.symm⟩
    have hapart : Apart a.1 b.1 := h.forall ha hb hab
    rw [Option.bind_assoc, Option.bind_assoc]
    exact congrArg _ (funext fun x => update_comm hapart x)

end Json
