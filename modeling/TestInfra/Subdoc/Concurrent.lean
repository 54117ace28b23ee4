import TestInfra.Subdoc.Sequence

set_option autoImplicit false

/-! # Concurrent operations

`build_concurrent_operations` collects the containers of a document once and draws operations that are to be made at
the same time. After an operation it remembers a path, and passes over the containers whose paths begin with it.

That keeps out what lies in a list that was changed, or in a dictionary in a list. It does not keep out a container
around one that was changed, nor the other items of a dictionary that was. Without these the operations do not get in
each other's way, and can be made in any order. -/

namespace TestInfra.SubdocHelper

open PyText Json

variable {α G P : Type}

/-! ## The loop -/

/-- `isPathPresent`. -/
def isPathPresent (path : Text) (filterPaths : List Text) : Bool := filterPaths.any fun parent => parent.isPrefixOf path

/-- `trim_path(path, "[")`, of a path that has a bracket. -/
def trimPath (path : Text) : Text := (path.reverse.dropWhile (· ≠ '[')).tail.reverse

/-- What is remembered of an operation's new path. -/
def filterPath (newPath : Text) : Text := if '[' ∈ newPath then trimPath newPath else newPath

/-- The variables of `build_concurrent_operations`. Of the objects in `pairs` only the kind is looked at, and an
    object stays what it is. -/
structure ConcurrentState (α : Type) where
  dataSet : Json α
  pairs : Dict Text (Json α)
  filterPaths : List Text
  operationDefinition : List (Definition α)
  operationIndex : ℕ

namespace ConcurrentState

/-- The path is passed over. -/
def passOver (s : ConcurrentState α) (key : Text) : ConcurrentState α :=
  { s with pairs := s.pairs.del key, filterPaths := s.filterPaths ++ [key] }

/-- An operation has been made. -/
def record (s : ConcurrentState α) (key : Text) (definition : Definition α) : ConcurrentState α where
  dataSet := definition.mutatedDataSet
  pairs := s.pairs.del key
  filterPaths := s.filterPaths ++ [filterPath definition.newPath]
  operationDefinition := s.operationDefinition ++ [definition]
  operationIndex := s.operationIndex + 1

variable (s : ConcurrentState α) (key : Text) (definition : Definition α)

@[simp] theorem record_dataSet : (s.record key definition).dataSet = definition.mutatedDataSet := rfl

@[simp] theorem record_operationDefinition :
    (s.record key definition).operationDefinition = s.operationDefinition ++ [definition] := rfl

@[simp] theorem record_operationIndex : (s.record key definition).operationIndex = s.operationIndex + 1 := rfl

end ConcurrentState

/-- How a call ends. -/
inductive Concurrent (α : Type) where
  | returned (operationDefinition : List (Definition α))
  | raised

section Loop

variable [DecidableEq α] (rd : RandomData α G P) (type : DataType) (force : Option Operation)
  (maxNumberOperations : ℕ)

/-- A round, up to the test of `operation_index`. A dictionary with an integer as a key is no document; a run is not
    followed beyond it. -/
def concurrentTurn (d : Draw G P) (s : ConcurrentState α) : DrawLoop.Turn (ConcurrentState α) :=
  match choice s.pairs.items d.key with
  | none => .stop
  | some (key, data) =>
      if isPathPresent key s.filterPaths then
        .next (s.passOver key)
      else
        match pick type data force d.operation with
        | .raised => .fail
        | .noMutation => .stay
        | .run op =>
            match operate rd d op s.dataSet key with
            | .raised => .fail
            | .intKey => .fail
            | .unchanged => .stay
            | .edited definition => .next (s.record key definition)

/-- `for i in range(10000)`, with so many rounds left. -/
def concurrentRounds (c : ℕ → Draw G P) : ℕ → ℕ → ConcurrentState α → Concurrent α
  | 0, _, s => .returned s.operationDefinition
  | n + 1, i, s =>
      match concurrentTurn rd type force (c i) s with
      | .stop => .returned s.operationDefinition
      | .fail => .raised
      | .stay =>
          if s.operationIndex = maxNumberOperations then .returned s.operationDefinition
          else concurrentRounds c n (i + 1) s
      | .next s =>
          if s.operationIndex = maxNumberOperations then .returned s.operationDefinition
          else concurrentRounds c n (i + 1) s

/-- The variables before the first round. -/
def concurrentStart (dataSet : Json α) : ConcurrentState α :=
  ⟨dataSet, findPairsDataType dataSet [] ∅ type, [], [], 1⟩

/-- `build_concurrent_operations`. -/
def buildConcurrentOperations (dataSet : Json α) (c : ℕ → Draw G P) : Concurrent α :=
  concurrentRounds rd type force maxNumberOperations c 10000 0 (concurrentStart type dataSet)

end Loop

/-! ## Positions under edits -/

theorem stepOf_setChild {v : Json α} {s : Step} (hs : (v.child s).isSome) (x : Json α) (a : Access) :
    stepOf (v.setChild s x) a = stepOf v a := by
  rcases v with b | text | items | items
  · rfl
  · rfl
  · rcases s with key | i
    · rfl
    · rcases a with key | j
      · rfl
      · rw [setChild, stepOf, stepOf, List.length_set]
  · rcases s with key | i
    · rcases a with key' | j
      · have hkey : (Assoc.find key items).isSome := hs
        rw [setChild, stepOf, stepOf, Assoc.find_store]
        by_cases hk : key' = key
        · rw [if_pos hk, hk, if_pos hkey]
          rfl
        · rw [if_neg hk]
      · rfl
    · rfl

/-- An edit does not change what leads to a position apart from it. -/
theorem locate_update_of_apart {f : Json α → Option (Json α)} {p q : List Step} (h : Apart p q) {v w : Json α}
    (hw : v.update f p = some w) (accesses : List Access) :
    locate w accesses = some q ↔ locate v accesses = some q := by
  induction accesses generalizing p q v w with
  | nil => exact Iff.rfl
  | cons a accesses ih =>
      obtain ⟨s, p', t, q', rfl, rfl, hsame⟩ := h.cases
      obtain ⟨x, hx, hmap⟩ := Option.bind_eq_some_iff.1 hw
      obtain ⟨x', hx', rfl⟩ := Option.map_eq_some_iff.1 hmap
      rw [locate, locate, stepOf_setChild (Option.isSome_of_eq_some hx)]
      rcases stepOf v a with _ | u
      · exact Iff.rfl
      rw [Option.bind_some, Option.bind_some]
      by_cases hus : u = s
      · subst hus
        rw [child_setChild_self hx, hx, Option.bind_some, Option.bind_some, Option.map_eq_some_iff,
          Option.map_eq_some_iff]
        refine exists_congr fun r => and_congr_left fun heq => ?_
        rcases heq with ⟨⟩
        exact ih (hsame rfl) hx'
      · rw [child_setChild_of_ne hx hus]

theorem position_update_of_apart {f : Json α → Option (Json α)} {p q : List Step} (h : Apart p q) {v w : Json α}
    (hw : v.update f p = some w) (op : Operation) (path : Text) :
    position op w path = some q ↔ position op v path = some q := by
  rw [position, position]
  split
  · exact Iff.rfl
  · rcases parsePath path with _ | accesses
    · exact Iff.rfl
    · exact locate_update_of_apart h hw accesses

theorem stepOf_accessOf {v : Json α} {s t : Step} (h : stepOf v (accessOf s) = some t) : t = s := by
  rcases v with b | text | items | items
  · simp [stepOf] at h
  · simp [stepOf] at h
  · rcases s with key | i
    · simp [accessOf, stepOf] at h
    · rw [accessOf, stepOf, if_pos (Int.natCast_nonneg i), Int.toNat_natCast] at h
      split at h
      · exact (Option.some.inj h).symm
      · simp at h
  · rcases s with key | i
    · rw [accessOf, stepOf] at h
      split at h
      · exact (Option.some.inj h).symm
      · simp at h
    · simp [accessOf, stepOf] at h

theorem locate_accessOf {v : Json α} {p q : List Step} (h : locate v (p.map accessOf) = some q) : q = p := by
  induction p generalizing v q with
  | nil => exact (Option.some.inj h).symm
  | cons s p ih =>
      rw [List.map_cons, locate] at h
      obtain ⟨t, ht, h⟩ := Option.bind_eq_some_iff.1 h
      obtain ⟨x, -, h⟩ := Option.bind_eq_some_iff.1 h
      obtain ⟨q', hq', rfl⟩ := Option.map_eq_some_iff.1 h
      rw [stepOf_accessOf ht, ih hq']

/-- In a plain document, and in what it becomes, a path leads nowhere but to its position. -/
theorem exists_render_of_collected {type : DataType} {doc x : Json α} {path : Text} (hdoc : Plain doc)
    (h : Collected type doc path x) :
    ∃ p, render p = path ∧ ∀ (v : Json α) (op : Operation) (q : List Step), position op v path = some q → q = p := by
  obtain ⟨-, p, hne, hsteps, rfl, -⟩ := hdoc.collected h
  obtain ⟨init, last, hreads⟩ := Reads.of_plain hsteps hne
  refine ⟨p, rfl, fun v op q hq => ?_⟩
  rw [position, if_neg fun h => hreads.render_ne_nil h.1, parsePath_render hsteps hne, Option.bind_some] at hq
  exact locate_accessOf hq

theorem prefix_extend (path : Text) (s : Step) : path <+: extend path s := by
  rcases s with key | i
  · rw [extend]
    split
    · rw [List.append_assoc]
      exact List.prefix_append _ _
    · next h =>
        rw [not_not.1 h]
        exact List.nil_prefix
  · rw [extend, List.append_assoc]
    exact List.prefix_append _ _

theorem prefix_render {p q : List Step} (h : p <+: q) : render p <+: render q := by
  obtain ⟨r, rfl⟩ := h
  induction r using List.reverseRecOn with
  | nil => exact ⟨[], by rw [List.append_nil, List.append_nil]⟩
  | append_singleton r s ih =>
      rw [← List.append_assoc, render_concat]
      exact ih.trans (prefix_extend _ _)

/-! ## Operations in any order -/

/-- The node an operation changes in a document. -/
def Definition.node (d : Definition α) (doc : Json α) : Option (List Step) := position d.operation doc d.path

/-- Neither operation changes the node of the other one, or one around it. -/
def Separate (doc : Json α) (o o' : Definition α) : Prop :=
  ∃ p q, o.node doc = some p ∧ o'.node doc = some q ∧ Apart p q

/-- The operations, one after the other; `none` where one of them cannot be applied. -/
def applyAll (doc : Json α) (ops : List (Definition α)) : Option (Json α) :=
  ops.foldl (fun v o => v.bind o.apply) (some doc)

/-- Not too many operations, of which none gets in the way of another one. -/
structure IndependentOperations (max : ℕ) (doc : Json α) (ops : List (Definition α)) : Prop where
  length_le : ops.length ≤ max
  separate : ops.Pairwise (Separate doc)
  anyOrder : ∃ w, ∀ ops' : List (Definition α), ops'.Perm ops → applyAll doc ops' = some w

/-- What the operations do, each at its node. -/
def edits (doc : Json α) (ops : List (Definition α)) : List (List Step × (Json α → Option (Json α))) :=
  ops.map fun o => ((o.node doc).getD [], o.edit.run)

theorem Separate.symm {doc : Json α} {o o' : Definition α} (h : Separate doc o o') : Separate doc o' o := by
  obtain ⟨p, q, hp, hq, hapart⟩ := h
  exact ⟨q, p, hq, hp, hapart.symm⟩

theorem apply_eq_update {o : Definition α} {doc : Json α} {p : List Step} (h : o.node doc = some p) :
    o.apply doc = doc.update o.edit.run p := by
  have hposition : position o.operation doc o.path = some p := h
  rw [Definition.apply, hposition, Option.bind_some]

/-- An operation leaves the nodes of the operations separate from it where they are. -/
theorem node_of_separate {doc w : Json α} {o o' : Definition α} (h : Separate doc o o') (hw : o.apply doc = some w) :
    o'.node w = o'.node doc := by
  obtain ⟨p, q, hp, hq, hapart⟩ := h
  rw [apply_eq_update hp] at hw
  rw [hq]
  exact (position_update_of_apart hapart hw o'.operation o'.path).2 hq

theorem foldl_bind_none {β γ : Type} (f : γ → β → Option β) (l : List γ) :
    l.foldl (fun v e => v.bind (f e)) none = none := by
  induction l with
  | nil => rfl
  | cons e l ih => exact ih

/-- Operations separate from each other are edits at the nodes they have in the document. -/
theorem applyAll_eq_edits {doc : Json α} {ops : List (Definition α)} (hnode : ∀ o ∈ ops, (o.node doc).isSome)
    (hseparate : ops.Pairwise (Separate doc)) :
    applyAll doc ops = (edits doc ops).foldl (fun v e => v.bind (Json.update e.2 e.1)) (some doc) := by
  induction ops generalizing doc with
  | nil => rfl
  | cons o ops ih =>
      obtain ⟨hhead, htail⟩ := List.pairwise_cons.1 hseparate
      obtain ⟨p, hp⟩ := Option.isSome_iff_exists.1 (hnode o List.mem_cons_self)
      rw [applyAll, edits, List.map_cons, List.foldl_cons, List.foldl_cons, hp, Option.getD_some, Option.bind_some,
        Option.bind_some, apply_eq_update hp]
      rcases hw : doc.update o.edit.run p with _ | w
      · rw [foldl_bind_none, foldl_bind_none]
      · have hsame : ∀ o' ∈ ops, o'.node w = o'.node doc := fun o' ho' =>
          node_of_separate (hhead o' ho') ((apply_eq_update hp).trans hw)
        have hnode' : ∀ o' ∈ ops, (o'.node w).isSome := by
          intro o' ho'
          rw [hsame o' ho']
          exact hnode o' (List.mem_cons_of_mem o ho')
        have hseparate' : ops.Pairwise (Separate w) := by
          refine htail.imp_of_mem fun {a b} ha hb hab => ?_
          obtain ⟨q, r, hq, hr, hapart⟩ := hab
          exact ⟨q, r, (hsame a ha).trans hq, (hsame b hb).trans hr, hapart⟩
        have hedits : edits w ops = ops.map fun o' => ((o'.node doc).getD [], o'.edit.run) :=
          List.map_congr_left fun o' ho' => by rw [hsame o' ho']
        rw [← hedits]
        exact ih hnode' hseparate'

/-- Operations separate from each other can be applied in any order. -/
theorem applyAll_perm {doc : Json α} {ops ops' : List (Definition α)} (hnode : ∀ o ∈ ops, (o.node doc).isSome)
    (hseparate : ops.Pairwise (Separate doc)) (hperm : ops'.Perm ops) : applyAll doc ops' = applyAll doc ops := by
  have hnode' : ∀ o ∈ ops', (o.node doc).isSome := fun o ho => hnode o (hperm.mem_iff.1 ho)
  have hseparate' : ops'.Pairwise (Separate doc) := hseparate.perm hperm.symm fun h => h.symm
  have hapart : (edits doc ops').Pairwise fun a b => Apart a.1 b.1 := by
    rw [edits, List.pairwise_map]
    refine hseparate'.imp fun {a b} hab => ?_
    obtain ⟨p, q, hp, hq, hapart⟩ := hab
    rw [hp, hq]
    exact hapart
  rw [applyAll_eq_edits hnode hseparate, applyAll_eq_edits hnode' hseparate']
  exact foldl_update_perm (hperm.map _) hapart _

/-! ## What is remembered -/

/-- What is remembered of an operation leads on to its own path, and so to all paths below its node. -/
def Definition.Covered (o : Definition α) : Prop := filterPath o.newPath <+: o.path

theorem exists_last_bracket {path : Text} (h : '[' ∈ path) :
    ∃ parent piece, path = parent ++ '[' :: piece ∧ '[' ∉ piece := by
  obtain ⟨piece, parent, hpath, hpiece⟩ := List.eq_append_cons_of_mem (List.mem_reverse.2 h)
  refine ⟨parent.reverse, piece.reverse, ?_, fun hmem => hpiece (List.mem_reverse.1 hmem)⟩
  rw [← List.reverse_reverse path, hpath, List.reverse_append, List.reverse_cons, List.append_assoc]
  rfl

/-- Trimming leaves what stands in front of the last bracket. -/
theorem trimPath_append (parent : Text) {piece : Text} (h : '[' ∉ piece) :
    trimPath (parent ++ '[' :: piece) = parent := by
  have hpiece : ∀ c ∈ piece.reverse, decide (c ≠ '[') = true := by
    intro c hc
    refine decide_eq_true fun heq => h ?_
    rw [← heq]
    exact List.mem_reverse.1 hc
  have hreverse : (parent ++ '[' :: piece).reverse = piece.reverse ++ '[' :: parent.reverse := by
    rw [List.reverse_append, List.reverse_cons, List.append_assoc]
    rfl
  rw [trimPath, hreverse, List.dropWhile_append_of_pos hpiece, List.dropWhile_cons_of_neg (by decide), List.tail_cons,
    List.reverse_reverse]

theorem filterPath_append (parent : Text) {piece : Text} (h : '[' ∉ piece) :
    filterPath (parent ++ '[' :: piece) = parent := by
  rw [filterPath, if_pos (List.mem_append_right _ List.mem_cons_self), trimPath_append parent h]

theorem prefix_filterPath (path : Text) : filterPath path <+: path := by
  by_cases h : '[' ∈ path
  · obtain ⟨parent, piece, rfl, hpiece⟩ := exists_last_bracket h
    rw [filterPath_append parent hpiece]
    exact List.prefix_append _ _
  · have hself : filterPath path = path := if_neg h
    exact ⟨[], by rw [hself, List.append_nil]⟩

theorem filterPath_index (path : Text) (i : ℕ) : filterPath (extend path (.index i)) = path := by
  have hpiece : '[' ∉ (toString i).toList ++ [']'] := by
    rw [List.mem_append, not_or]
    exact ⟨not_mem_toString (by decide) i, by decide⟩
  rw [extend, List.append_assoc, List.cons_append, filterPath_append path hpiece]

/-- The path of a field leads on from what is remembered of it only if it has a bracket. -/
theorem filterPath_key_prefix_iff {path field : Text} (hfield : PlainKey field) :
    filterPath (extend path (.key field)) <+: path ↔ '[' ∈ path := by
  by_cases h : '[' ∈ path
  · obtain ⟨parent, piece, rfl, hpiece⟩ := exists_last_bracket h
    have hne : parent ++ '[' :: piece ≠ [] := List.append_ne_nil_of_right_ne_nil _ (List.cons_ne_nil _ _)
    have hrest : '[' ∉ piece ++ '.' :: field := by
      rw [List.mem_append, List.mem_cons, not_or, not_or]
      exact ⟨hpiece, by decide, hfield.2.2.1⟩
    have hextend : extend (parent ++ '[' :: piece) (.key field) = parent ++ '[' :: (piece ++ '.' :: field) := by
      rw [extend, if_pos hne, List.append_assoc, List.append_assoc]
      rfl
    rw [hextend, filterPath_append parent hrest]
    exact ⟨fun _ => h, fun _ => List.prefix_append _ _⟩
  · have hbracket : '[' ∉ extend path (.key field) := by
      rw [extend, List.mem_append, not_or]
      refine ⟨?_, hfield.2.2.1⟩
      split
      · rw [List.mem_append, not_or]
        exact ⟨h, by decide⟩
      · exact List.not_mem_nil
    have hlonger : path.length < (extend path (.key field)).length := by
      have hpos := List.length_pos_of_ne_nil hfield.1
      rw [extend, List.length_append]
      split
      · rw [List.length_append]
        omega
      · next hnil =>
          rw [not_not.1 hnil, List.length_nil, Nat.zero_add]
          exact hpos
    rw [filterPath, if_neg hbracket]
    exact ⟨fun hprefix => absurd hprefix.length_le (Nat.not_le.2 hlonger), fun hmem => absurd hmem h⟩

theorem newPath_of_ite {p : Prop} [Decidable p] {edit edit' : Edit α} {newPath newPath' : Text}
    {data data' : Option (Json α)}
    (h : (if p then .unchanged else Result.edited edit newPath data) = .edited edit' newPath' data') :
    newPath' = newPath := by
  split at h
  · exact nomatch h
  · exact (Result.edited.inj h).2.1.symm

theorem newPath_of_choice {path newPath : Text} {fields : List Text} {n : ℕ} {edit : Text → Edit α}
    {edit' : Edit α} {data data' : Option (Json α)}
    (h : (match choice fields n with
      | none => (Result.unchanged : Result α)
      | some field => .edited (edit field) (extend path (.key field)) data) = .edited edit' newPath data') :
    ∃ field ∈ fields, newPath = extend path (.key field) := by
  rcases hfield : choice fields n with _ | field
  · rw [hfield] at h
    exact nomatch h
  · rw [hfield] at h
    exact ⟨field, choice_mem hfield, (Result.edited.inj h).2.1.symm⟩

section Covered

variable [DecidableEq α] {rd : RandomData α G P} {draw : Draw G P} {path : Text} {x : Json α}

theorem arrayAddTexts_ne_edited {type : AddType} {texts : List Text} {edit : Edit α} {newPath : Text}
    {data : Option (Json α)} : arrayAddTexts rd draw type texts ≠ .edited edit newPath data := by
  rcases type with _ | _ | _ | _
  · simp [arrayAddTexts]
  · simp [arrayAddTexts]
  · rw [arrayAddTexts]
    split
    · simp
    · simp
  · rw [arrayAddTexts]
    split
    · simp
    · simp

/-- Only containers of its kind are edited by an operation. -/
theorem fits_of_edited {op : Operation} {edit : Edit α} {newPath : Text} {data : Option (Json α)}
    (h : pythonBased rd draw path op x = .edited edit newPath data) : Fits op x := by
  rcases op with op | op
  · rcases x with a | text | items | items
    · rcases op with type | _ | _ <;> exact nomatch h
    · rcases op with type | _ | _
      · exact absurd h arrayAddTexts_ne_edited
      · rw [pythonBased, pythonBasedArrayDelete] at h
        split at h <;> exact nomatch h
      · rw [pythonBased, pythonBasedArrayReplace] at h
        split at h <;> exact nomatch h
    · trivial
    · rcases op with type | _ | _
      · exact absurd h arrayAddTexts_ne_edited
      · rw [pythonBased, pythonBasedArrayDelete] at h
        split at h <;> exact nomatch h
      · rw [pythonBased, pythonBasedArrayReplace] at h
        split at h <;> exact nomatch h
  · rcases x with a | text | items | items
    · rcases op with _ | _ | _ | _ | _ <;> exact nomatch h
    · rcases op with _ | _ | _ | _ | _ <;> exact nomatch h
    · rcases op with _ | _ | _ | _ | _ <;> exact nomatch h
    · trivial

/-- The new path of an operation for lists. -/
theorem newPath_of_array {op : ArrayOp} {edit : Edit α} {newPath : Text} {data : Option (Json α)}
    (h : pythonBased rd draw path (.array op) x = .edited edit newPath data) :
    newPath = path ∨ ∃ i, newPath = extend path (.index i) := by
  have hfits := fits_of_edited h
  rcases x with a | text | items | items
  · exact hfits.elim
  · exact hfits.elim
  · rcases op with type | _ | _
    · rcases type with _ | _ | _ | _
      · exact .inl (Result.edited.inj h).2.1.symm
      · exact .inl (Result.edited.inj h).2.1.symm
      · exact .inl (newPath_of_ite h)
      · exact .inr ⟨_, newPath_of_ite h⟩
    · exact .inr ⟨_, newPath_of_ite h⟩
    · exact .inr ⟨_, newPath_of_ite h⟩
  · exact hfits.elim

/-- The new path of an operation for dictionaries. -/
theorem newPath_of_dict (hrd : PlainData rd) (hx : Plain x) {op : DictOp} {edit : Edit α} {newPath : Text}
    {data : Option (Json α)} (h : pythonBased rd draw path (.dict op) x = .edited edit newPath data) :
    ∃ field, PlainKey field ∧ newPath = extend path (.key field) := by
  have hfits := fits_of_edited h
  rcases x with a | text | items | items
  · exact hfits.elim
  · exact hfits.elim
  · exact hfits.elim
  have hkeys : ∀ field ∈ items.map Prod.fst, PlainKey field := by
    rw [List.forall_mem_map]
    exact fun p hp => ((plain_dict_iff.1 hx).2 p hp).1
  have hchosen : (∃ field ∈ items.map Prod.fst, newPath = extend path (.key field)) →
      ∃ field, PlainKey field ∧ newPath = extend path (.key field) := by
    rintro ⟨field, hmem, hnew⟩
    exact ⟨field, hkeys field hmem, hnew⟩
  rcases op with _ | _ | _ | _ | _
  · exact ⟨_, hrd.field draw.data, (Result.edited.inj h).2.1.symm⟩
  · exact ⟨_, hrd.field draw.data, (Result.edited.inj h).2.1.symm⟩
  · exact hchosen (newPath_of_choice h)
  · exact hchosen (newPath_of_choice h)
  · exact hchosen (newPath_of_choice h)

/-- **Which operations are covered**: those for lists, and those for dictionaries in a list. -/
theorem covered_iff (hrd : PlainData rd) {v : Json α} (hv : Plain v) {op : Operation} {definition : Definition α}
    (h : operate rd draw op v path = .edited definition) :
    definition.Covered ↔ (∃ o, op = .array o) ∨ '[' ∈ path := by
  rcases htarget : target op v path with _ | x
  · simp [operate, htarget] at h
  rcases hresult : pythonBased rd draw path op x with _ | _ | _ | ⟨edit, newPath, data⟩
  · simp [operate, htarget, hresult] at h
  · simp [operate, htarget, hresult] at h
  · simp [operate, htarget, hresult] at h
  have hpaths : definition.path = path ∧ definition.newPath = newPath := by
    simp only [operate, htarget, hresult] at h
    split at h
    · simp at h
    · rcases h with ⟨⟩
      exact ⟨rfl, rfl⟩
  rw [Definition.Covered, hpaths.1, hpaths.2]
  rcases op with op | op
  · refine ⟨fun _ => .inl ⟨op, rfl⟩, fun _ => ?_⟩
    rcases newPath_of_array hresult with rfl | ⟨i, rfl⟩
    · exact prefix_filterPath _
    · exact ⟨[], by rw [filterPath_index, List.append_nil]⟩
  · obtain ⟨p, -, hget⟩ := position_of_target htarget (fits_of_edited hresult).container
    obtain ⟨field, hfield, rfl⟩ := newPath_of_dict hrd (hv.get? hget) hresult
    rw [filterPath_key_prefix_iff hfield]
    have hnot : ¬ ∃ o, Operation.dict op = .array o := by simp
    exact ⟨.inr, fun h => h.resolve_left hnot⟩

end Covered

/-! ## One round -/

section Round

variable [DecidableEq α] (rd : RandomData α G P) (type : DataType) (force : Option Operation)

/-- An operation for lists finds nothing to do in texts. -/
def IdleTexts (plain : P) : ArrayOp → List Text → Prop
  | .add .first, _ => False
  | .add .last, _ => False
  | .add .unique, texts => ∃ text ∈ texts, pyEq (.str text) (rd.genDataNoJson plain) = true
  | _, texts => texts = []

/-- An operation for lists finds nothing to do in a dictionary or a text. -/
def Idle (plain : P) : Operation → Json α → Prop
  | .array op, .dict items => IdleTexts rd plain op (items.map Prod.fst)
  | .array op, .str text => IdleTexts rd plain op (text.map fun c => [c])
  | _, _ => False

/-- The node drawn is not around one that was changed before. Nor is it at one or below it, if the operation there is
    not covered, or the document not plain. -/
def Clear (doc : Json α) (s : ConcurrentState α) (op : Operation) (key : Text) : Prop :=
  ∀ o ∈ s.operationDefinition, ∀ p q, position op s.dataSet key = some p → o.node doc = some q →
    ¬ p <+: q ∧ ((Plain doc → ¬ o.Covered) → ¬ q <+: p)

/-- What has to hold of a draw, unless the path drawn is passed over: a forced operation is for containers of this
    kind, and the path still leads to one, where the operation finds nothing to do or is clear of those before. -/
structure Allowed (doc : Json α) (max : ℕ) (s : ConcurrentState α) (d : Draw G P) (key : Text) (data : Json α) :
    Prop where
  picked : ∀ op, force = some op → findDataType type data = true → Fits op data
  leads : ∀ op, pick type data force d.operation = .run op → ∃ x, target op s.dataSet key = some x ∧
    (Idle rd d.plain op x ∨
      Fits op x ∧ (Succeeds rd d.plain op x → (max = 1 → s.operationDefinition = []) ∧ Clear doc s op key))

/-- What a round does when its draw is allowed. -/
inductive Turned (doc : Json α) (max : ℕ) (s : ConcurrentState α) : DrawLoop.Turn (ConcurrentState α) → Prop where
  | stop : Turned doc max s .stop
  | stay : Turned doc max s .stay
  | passed (key : Text) : Turned doc max s (.next (s.passOver key))
  | made (definition : Definition α) (data : Json α) (hkey : s.pairs.get? definition.path = some data)
      (hpresent : isPathPresent definition.path s.filterPaths = false)
      (hnode : (definition.node s.dataSet).isSome)
      (happly : definition.apply s.dataSet = some definition.mutatedDataSet)
      (hfirst : max = 1 → s.operationDefinition = []) (hclear : Clear doc s definition.operation definition.path) :
      Turned doc max s (.next (s.record definition.path definition))

variable {rd type force}

theorem arrayAddTexts_of_idle {draw : Draw G P} {type : AddType} {texts : List Text}
    (h : IdleTexts rd draw.plain (.add type) texts) : arrayAddTexts rd draw type texts = .unchanged := by
  rcases type with _ | _ | _ | _
  · exact h.elim
  · exact h.elim
  · obtain ⟨text, hmem, heq⟩ := h
    exact if_pos (List.any_eq_true.2 ⟨text, hmem, heq⟩)
  · have hnil : texts = [] := h
    rw [hnil]
    rfl

theorem pythonBased_of_idle {draw : Draw G P} {path : Text} {op : Operation} {x : Json α}
    (h : Idle rd draw.plain op x) : pythonBased rd draw path op x = .unchanged := by
  rcases op with op | op
  · rcases x with a | text | items | items
    · exact h.elim
    · rcases op with type | _ | _
      · exact arrayAddTexts_of_idle h
      · exact if_pos (List.isEmpty_iff.2 (List.map_eq_nil_iff.1 h))
      · exact if_pos (List.isEmpty_iff.2 (List.map_eq_nil_iff.1 h))
    · exact h.elim
    · rcases op with type | _ | _
      · exact arrayAddTexts_of_idle h
      · exact if_pos (List.isEmpty_iff.2 (List.map_eq_nil_iff.1 h))
      · exact if_pos (List.isEmpty_iff.2 (List.map_eq_nil_iff.1 h))
  · rcases x with a | text | items | items <;> exact h.elim

theorem operate_of_idle {d : Draw G P} {op : Operation} {v x : Json α} {path : Text}
    (htarget : target op v path = some x) (h : Idle rd d.plain op x) : operate rd d op v path = .unchanged := by
  have hunchanged : pythonBased rd d path op x = .unchanged := pythonBased_of_idle h
  simp only [operate, htarget, hunchanged]

theorem concurrentTurn_turned {doc : Json α} {max : ℕ} {s : ConcurrentState α} {d : Draw G P}
    (hallowed : ∀ key data, choice s.pairs.items d.key = some (key, data) → isPathPresent key s.filterPaths = false →
      Allowed rd type force doc max s d key data) : Turned doc max s (concurrentTurn rd type force d s) := by
  rcases hchoice : choice s.pairs.items d.key with _ | ⟨key, data⟩
  · have hturn : concurrentTurn rd type force d s = .stop := by simp only [concurrentTurn, hchoice]
    rw [hturn]
    exact .stop
  rcases hpresent : isPathPresent key s.filterPaths with _ | _
  · obtain ⟨hfits, hleads⟩ := hallowed key data hchoice hpresent
    have hpicked := pick_pickedFor type data force d.operation
    rcases hpick : pick type data force d.operation with _ | _ | op
    · rw [hpick] at hpicked
      rcases hpicked with _ | ⟨htype, op, hforce, hnot⟩ | _
      exact absurd (hfits op hforce htype) hnot
    · have hturn : concurrentTurn rd type force d s = .stay := by
        simp only [concurrentTurn, hchoice, hpresent, hpick]
        rfl
      rw [hturn]
      exact .stay
    · obtain ⟨x, htarget, hidle | ⟨hfits, hsucceeds⟩⟩ := hleads op hpick
      · have hturn : concurrentTurn rd type force d s = .stay := by
          simp only [concurrentTurn, hchoice, hpresent, hpick, operate_of_idle htarget hidle]
          rfl
        rw [hturn]
        exact .stay
      have hoperated := operate_operated rd d htarget hfits
      generalize hoperate : operate rd d op s.dataSet key = outcome at hoperated
      rcases hoperated with ⟨definition, p, hdone, rfl, rfl, hposition, -, -, happly⟩ | _
      · have hturn : concurrentTurn rd type force d s = .next (s.record definition.path definition) := by
          simp only [concurrentTurn, hchoice, hpresent, hpick, hoperate]
          rfl
        obtain ⟨hfirst, hclear⟩ := hsucceeds hdone
        rw [hturn]
        exact .made definition data ((Dict.get?_eq_some_iff _ _ _).2 (choice_mem hchoice)) hpresent
          (Option.isSome_of_eq_some hposition) happly hfirst hclear
      · have hturn : concurrentTurn rd type force d s = .stay := by
          simp only [concurrentTurn, hchoice, hpresent, hpick, hoperate]
          rfl
        rw [hturn]
        exact .stay
  · have hturn : concurrentTurn rd type force d s = .next (s.passOver key) := by
      simp only [concurrentTurn, hchoice, hpresent]
      rfl
    rw [hturn]
    exact .passed key

end Round

/-! ## All rounds -/

/-- An operation made: what is remembered of it, and where it is in the document. -/
structure Recorded (type : DataType) (doc : Json α) (filterPaths : List Text) (o : Definition α) : Prop where
  collected : ∃ x, Collected type doc o.path x
  remembered : filterPath o.newPath ∈ filterPaths
  node : (o.node doc).isSome

/-- Between two rounds the operations made are separate, and have led from the document to what it is now. What is
    apart from them is still where it was. -/
structure ConcurrentInv (type : DataType) (doc : Json α) (s : ConcurrentState α) : Prop where
  pairs : ∀ key data, s.pairs.get? key = some data → Collected type doc key data
  recorded : ∀ o ∈ s.operationDefinition, Recorded type doc s.filterPaths o
  separate : s.operationDefinition.Pairwise (Separate doc)
  alike : ∀ op path r, (∀ o ∈ s.operationDefinition, ∀ q, o.node doc = some q → Apart q r) →
    (position op s.dataSet path = some r ↔ position op doc path = some r)
  applied : applyAll doc s.operationDefinition = some s.dataSet
  index : s.operationIndex = s.operationDefinition.length + 1

theorem concurrentInv_start (type : DataType) (doc : Json α) : ConcurrentInv type doc (concurrentStart type doc) where
  pairs := fun _ _ h => h
  recorded := fun _ ho => absurd ho List.not_mem_nil
  separate := .nil
  alike := fun _ _ _ _ => Iff.rfl
  applied := rfl
  index := rfl

theorem get?_of_del {pairs : Dict Text (Json α)} {key key' : Text} {data : Json α}
    (h : (pairs.del key).get? key' = some data) : pairs.get? key' = some data := by
  rw [Dict.get?_del] at h
  split at h
  · simp at h
  · exact h

theorem isPathPresent_of_prefix {path parent : Text} {filterPaths : List Text} (hmem : parent ∈ filterPaths)
    (h : parent <+: path) : isPathPresent path filterPaths = true :=
  List.any_eq_true.2 ⟨parent, hmem, List.isPrefixOf_iff_prefix.2 h⟩

namespace ConcurrentInv

variable {type : DataType} {doc : Json α} {s : ConcurrentState α}

/-- **What the paths remembered keep out**: with them, a node drawn that is clear is apart from all before. -/
theorem apart (h : ConcurrentInv type doc s) {o' : Definition α} {data : Json α}
    (hkey : s.pairs.get? o'.path = some data) (hpresent : isPathPresent o'.path s.filterPaths = false)
    (hclear : Clear doc s o'.operation o'.path) {p : List Step} (hp : o'.node s.dataSet = some p) :
    ∀ o ∈ s.operationDefinition, ∀ q, o.node doc = some q → Apart q p := by
  intro o ho q hq
  obtain ⟨haround, hbelow⟩ := hclear o ho p q hp hq
  refine ⟨fun hqp => hbelow (fun hdoc hcovered => ?_) hqp, haround⟩
  obtain ⟨⟨x, hx⟩, hremembered, -⟩ := h.recorded o ho
  obtain ⟨p', hpath, hp'⟩ := exists_render_of_collected hdoc (h.pairs _ _ hkey)
  obtain ⟨q', hpath', hq'⟩ := exists_render_of_collected hdoc hx
  -- what is remembered begins the earlier path, and that one the path drawn: it would have been passed over
  have hrender : o.path <+: o'.path := by
    rw [← hpath, ← hpath', ← hp' _ _ _ hp, ← hq' _ _ _ hq]
    exact prefix_render hqp
  have hpresent' := isPathPresent_of_prefix hremembered (hcovered.trans hrender)
  exact Bool.false_ne_true (hpresent.symm.trans hpresent')

theorem passOver (h : ConcurrentInv type doc s) (key : Text) : ConcurrentInv type doc (s.passOver key) where
  pairs := fun key' data hkey => h.pairs key' data (get?_of_del hkey)
  recorded := fun o ho =>
    ⟨(h.recorded o ho).1, List.mem_append_left _ (h.recorded o ho).2, (h.recorded o ho).3⟩
  separate := h.separate
  alike := h.alike
  applied := h.applied
  index := h.index

theorem record (h : ConcurrentInv type doc s) {o' : Definition α} {data : Json α}
    (hkey : s.pairs.get? o'.path = some data) (hpresent : isPathPresent o'.path s.filterPaths = false)
    (hnode : (o'.node s.dataSet).isSome) (happly : o'.apply s.dataSet = some o'.mutatedDataSet)
    (hclear : Clear doc s o'.operation o'.path) : ConcurrentInv type doc (s.record o'.path o') := by
  obtain ⟨p, hp⟩ := Option.isSome_iff_exists.1 hnode
  have hapart := h.apart hkey hpresent hclear hp
  have hdoc : o'.node doc = some p := (h.alike o'.operation o'.path p hapart).1 hp
  constructor
  · exact fun key data hkey => h.pairs key data (get?_of_del hkey)
  · intro o ho
    rcases List.mem_append.1 ho with ho | ho
    · obtain ⟨hcollected, hremembered, hnode⟩ := h.recorded o ho
      exact ⟨hcollected, List.mem_append_left _ hremembered, hnode⟩
    · rw [List.mem_singleton.1 ho]
      exact ⟨⟨data, h.pairs _ _ hkey⟩, List.mem_append_right _ (List.mem_singleton_self _),
        Option.isSome_of_eq_some hdoc⟩
  · refine List.pairwise_append.2 ⟨h.separate, List.pairwise_singleton _ _, fun o ho o'' ho'' => ?_⟩
    rw [List.mem_singleton.1 ho'']
    obtain ⟨q, hq⟩ := Option.isSome_iff_exists.1 (h.recorded o ho).node
    exact ⟨q, p, hq, hdoc, hapart o ho q hq⟩
  · intro op path r hr
    have hpr : Apart p r := hr o' (List.mem_append_right _ (List.mem_singleton_self _)) p hdoc
    rw [apply_eq_update hp] at happly
    rw [ConcurrentState.record_dataSet, position_update_of_apart hpr happly]
    exact h.alike op path r fun o ho => hr o (List.mem_append_left _ ho)
  · have hbefore : s.operationDefinition.foldl (fun v o => v.bind o.apply) (some doc) = some s.dataSet := h.applied
    rw [ConcurrentState.record_operationDefinition, applyAll, List.foldl_append, hbefore, List.foldl_cons,
      Option.bind_some, happly, List.foldl_nil, ConcurrentState.record_dataSet]
  · rw [ConcurrentState.record_operationDefinition, ConcurrentState.record_operationIndex, List.length_append,
      List.length_singleton, h.index]

theorem independent (h : ConcurrentInv type doc s) {max : ℕ}
    (hlength : s.operationDefinition.length ≤ max) : IndependentOperations max doc s.operationDefinition where
  length_le := hlength
  separate := h.separate
  anyOrder := ⟨s.dataSet, fun _ hperm =>
    (applyAll_perm (fun o ho => (h.recorded o ho).node) h.separate hperm).trans h.applied⟩

end ConcurrentInv

section Runs

variable [DecidableEq α] (rd : RandomData α G P) (type : DataType) (force : Option Operation) (max : ℕ) (doc : Json α)
  (c : ℕ → Draw G P)

/-- The states in front of the rounds of a run. -/
inductive Visits : ℕ → ConcurrentState α → Prop where
  | start : Visits 0 (concurrentStart type doc)
  | stay {i : ℕ} {s : ConcurrentState α} (h : Visits i s) (hturn : concurrentTurn rd type force (c i) s = .stay)
      (hmore : s.operationIndex ≠ max) : Visits (i + 1) s
  | next {i : ℕ} {s t : ConcurrentState α} (h : Visits i s)
      (hturn : concurrentTurn rd type force (c i) s = .next t) (hmore : t.operationIndex ≠ max) : Visits (i + 1) t

/-- The draws of all rounds are allowed. -/
def AllAllowed : Prop :=
  ∀ i s, i < 10000 → Visits rd type force max doc c i s →
    ∀ key data, choice s.pairs.items (c i).key = some (key, data) → isPathPresent key s.filterPaths = false →
      Allowed rd type force doc max s (c i) key data

/-- The counter starts at one, so it passes by a maximum of one. -/
structure Within (s : ConcurrentState α) : Prop where
  length_le : s.operationDefinition.length ≤ max
  index_lt : max ≠ 1 → s.operationIndex < max

variable {rd type force max doc c}

theorem concurrentRounds_independent (hallowed : AllAllowed rd type force max doc c) {n i : ℕ}
    {s : ConcurrentState α} (hi : i + n = 10000) (hvisits : Visits rd type force max doc c i s)
    (hinv : ConcurrentInv type doc s) (hwithin : Within max s) :
    ∃ ops, concurrentRounds rd type force max c n i s = .returned ops ∧ IndependentOperations max doc ops := by
  induction n generalizing i s with
  | zero => exact ⟨_, rfl, hinv.independent hwithin.length_le⟩
  | succ n ih =>
      -- the test at the end of a round
      have hrest : ∀ t, ConcurrentInv type doc t → t.operationDefinition.length ≤ max →
          (t.operationIndex ≠ max → Visits rd type force max doc c (i + 1) t ∧ Within max t) →
          ∃ ops, (if t.operationIndex = max then .returned t.operationDefinition
            else concurrentRounds rd type force max c n (i + 1) t) = .returned ops ∧
              IndependentOperations max doc ops := by
        intro t ht hlength hmore
        by_cases hindex : t.operationIndex = max
        · exact ⟨_, if_pos hindex, ht.independent hlength⟩
        · obtain ⟨hvisits', hwithin'⟩ := hmore hindex
          rw [if_neg hindex]
          exact ih (by omega) hvisits' ht hwithin'
      have hturned := concurrentTurn_turned (hallowed i s (by omega) hvisits)
      generalize hturn : concurrentTurn rd type force (c i) s = turn at hturned
      rcases hturned with _ | _ | key | ⟨definition, data, hkey, hpresent, hnode, happly, hfirst, hclear⟩
      · rw [concurrentRounds, hturn]
        exact ⟨_, rfl, hinv.independent hwithin.length_le⟩
      · rw [concurrentRounds, hturn]
        exact hrest s hinv hwithin.length_le fun hmore => ⟨hvisits.stay hturn hmore, hwithin⟩
      · rw [concurrentRounds, hturn]
        exact hrest _ (hinv.passOver key) hwithin.length_le fun hmore =>
          ⟨hvisits.next hturn hmore, hwithin.length_le, hwithin.index_lt⟩
      · have hindex := hinv.index
        have hmade := hinv.record hkey hpresent hnode happly hclear
        have hlength : (s.record definition.path definition).operationDefinition.length ≤ max := by
          rw [ConcurrentState.record_operationDefinition, List.length_append, List.length_singleton]
          by_cases hmax : max = 1
          · rw [hfirst hmax, List.length_nil, hmax]
          · have hlt := hwithin.index_lt hmax
            omega
        rw [concurrentRounds, hturn]
        refine hrest _ hmade hlength fun hmore => ⟨hvisits.next hturn hmore, hlength, fun hmax => ?_⟩
        have hlt := hwithin.index_lt hmax
        rw [ConcurrentState.record_operationIndex] at hmore ⊢
        omega

/-- **When concurrent operations are independent**: in every run whose draws are allowed. Then it returns at most so
    many operations, of which no two change nested nodes, and which can be applied in any order. -/
theorem buildConcurrentOperations_independent (rd : RandomData α G P) (type : DataType) (force : Option Operation)
    {max : ℕ} (hmax : 1 ≤ max) (doc : Json α) (c : ℕ → Draw G P) (hallowed : AllAllowed rd type force max doc c) :
    ∃ ops, buildConcurrentOperations rd type force max doc c = .returned ops ∧ IndependentOperations max doc ops := by
  refine concurrentRounds_independent hallowed (Nat.zero_add _) .start (concurrentInv_start type doc) ⟨?_, ?_⟩
  · exact Nat.zero_le max
  · intro hne
    exact lt_of_le_of_ne hmax (Ne.symm hne)

end Runs

/-- Always the first path, and the first operation on it. -/
def firstDraws : ℕ → Draw ℕ ℕ := fun _ => ⟨0, 0, 0, 0, 0⟩

/-- Two lists, side by side. -/
def twoLists : Json ℤ := .dict [("a".toList, .list []), ("b".toList, .list [])]

/-- The first list has got a number. -/
def afterFirst : ConcurrentState ℤ :=
  match concurrentTurn randomInt .any none (firstDraws 0) (concurrentStart .any twoLists) with
  | .next s => s
  | _ => concurrentStart .any twoLists

theorem visits_twoLists {i : ℕ} {s : ConcurrentState ℤ} (h : Visits randomInt .any none 3 twoLists firstDraws i s) :
    (i = 0 ∧ s = concurrentStart .any twoLists) ∨ (i = 1 ∧ s = afterFirst) := by
  induction h with
  | start => exact .inl ⟨rfl, rfl⟩
  | stay _ hturn _ ih =>
      rcases ih with ⟨rfl, rfl⟩ | ⟨rfl, rfl⟩
      · exact nomatch hturn
      · exact nomatch hturn
  | next _ hturn hmore ih =>
      rcases ih with ⟨rfl, rfl⟩ | ⟨rfl, rfl⟩
      · exact .inr ⟨rfl, (DrawLoop.Turn.next.inj hturn).symm⟩
      · rw [← DrawLoop.Turn.next.inj hturn] at hmore
        exact absurd rfl hmore

theorem buildConcurrentOperations_independent_twoLists :
    ∃ ops, buildConcurrentOperations randomInt .any none 3 twoLists firstDraws = .returned ops ∧
      IndependentOperations 3 twoLists ops := by
  refine buildConcurrentOperations_independent randomInt .any none (by decide) twoLists firstDraws ?_
  intro i s _ hvisits key data hchoice _
  refine ⟨fun _ h => (nomatch h), fun op hpick => ?_⟩
  rcases visits_twoLists hvisits with ⟨rfl, rfl⟩ | ⟨rfl, rfl⟩
  · obtain ⟨rfl, rfl⟩ := Prod.mk.inj (Option.some.inj hchoice)
    obtain rfl := Picked.run.inj hpick
    refine ⟨.list [], rfl, .inr ⟨trivial, fun _ => ⟨fun h => absurd h (by decide), fun o ho => ?_⟩⟩⟩
    exact absurd ho List.not_mem_nil
  · obtain ⟨rfl, rfl⟩ := Prod.mk.inj (Option.some.inj hchoice)
    obtain rfl := Picked.run.inj hpick
    refine ⟨.list [], rfl, .inr ⟨trivial, fun _ => ⟨fun h => absurd h (by decide), fun o ho p q hp hq => ?_⟩⟩⟩
    obtain rfl := List.mem_singleton.1 ho
    obtain rfl := Option.some.inj hp
    obtain rfl := Option.some.inj hq
    exact ⟨by decide, fun _ => by decide⟩

/-- A dictionary in a dictionary. -/
def inner : Json ℤ := .dict [("a".toList, .dict [("b".toList, .dict [])])]

/-- First something is added to the inner dictionary, then it is deleted. -/
theorem buildConcurrentOperations_nested :
    ¬ ∀ (doc : Json ℤ) (max : ℕ) (c : ℕ → Draw ℕ ℕ), 1 ≤ max → WellFormed doc →
      ∃ ops, buildConcurrentOperations randomInt .any none max doc c = .returned ops ∧
        IndependentOperations max doc ops := by
  intro h
  have hwell : WellFormed inner := by simp [inner, wellFormed_dict_iff]
  obtain ⟨ops, hops, -, hseparate, -⟩ := h inner 3 (fun i => ⟨0, 3 * i, 0, 0, 0⟩) (by decide) hwell
  have hpaths : ∃ o o', ops = [o, o'] ∧ o.node inner = some [.key "a".toList, .key "b".toList] ∧
      o'.node inner = some [.key "a".toList] := ⟨_, _, (Concurrent.returned.inj hops).symm, rfl, rfl⟩
  obtain ⟨o, o', rfl, ho, ho'⟩ := hpaths
  obtain ⟨p, q, hp, hq, hapart⟩ := (List.pairwise_cons.1 hseparate).1 o' List.mem_cons_self
  rw [ho] at hp
  rw [ho'] at hq
  rw [← Option.some.inj hp, ← Option.some.inj hq] at hapart
  exact absurd hapart.2 (by decide)

end TestInfra.SubdocHelper
