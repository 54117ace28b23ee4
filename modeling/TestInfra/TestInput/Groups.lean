import TestInfra.TestInput.Params

set_option autoImplicit false

/-! # Tests selected by their groups

With the run parameters `GROUP` and `EXCLUDE_GROUP`, `testrunner.main` runs the tests of some groups only. The test
that guards the selection looks for `GROUP` alone, and what is excluded is compared with the `EXCLUDE_GROUP` of the
test itself, not with its groups. -/

namespace TestInfra.TestInput

open PyText

/-! ## The loop over the tests -/

def groupName : Text := "GROUP".toList

def excludeGroupName : Text := "EXCLUDE_GROUP".toList

/-- `value.split(";")`; only texts have it. -/
def splitGroups : ParamValue → Option (List Text)
  | .str text => some (text.splitOn ';')
  | _ => none

/-- `len(set(groups) & set(names.split(";")))`, as a condition. -/
def meet (groups : List Text) (names : Text) : Bool := groups.any fun name => name ∈ names.splitOn ';'

/-- Whether the loop goes on to the next test; `none` when it raises. -/
def skipped (testParams : Dict Text ParamValue) (params : Dict Text Text) : Option Bool :=
  -- `("GROUP" or "EXCLUDE_GROUP") in test_params`
  match testParams.get? groupName with
  | none => some false
  | some group =>
      match params.get? groupName with
      | none => some true
      | some groups => do
          if meet (← splitGroups group) groups then
            match params.get? excludeGroupName with
            | none => return false
            | some excluded => return meet (← splitGroups (← testParams.get? excludeGroupName)) excluded
          else return true

/-- The tests of the list that `main` runs. -/
def selectTests (testParams : Dict Text ParamValue) : List Text → Option (List Text)
  | [] => some []
  | name :: names => do
      let skip ← skipped testParams (pairs name)
      let rest ← selectTests testParams names
      return if skip then rest else name :: rest

/-! ## The tests that are wanted -/

/-- The parameter of the test shares a name with the groups. -/
def SharesGroup (params : Dict Text Text) (param groups : Text) : Prop :=
  ∃ names, params.get? param = some names ∧ ∃ name, name ∈ names.splitOn ';' ∧ name ∈ groups.splitOn ';'

/-- The test is in one of the groups to be run, if they are given, and in none of those to be excluded. -/
def Wanted (group exclude : Option Text) (params : Dict Text Text) : Prop :=
  (∀ groups ∈ group, SharesGroup params groupName groups) ∧
    ∀ groups ∈ exclude, ¬ SharesGroup params groupName groups

/-- Without `GROUP` the test is in none of the groups to be excluded. With it, a test of one of its groups has no
    `EXCLUDE_GROUP` and is in none of the groups to be excluded; or it has one, there are groups to be excluded, and
    it shares a name with them exactly when the test is in one of them. -/
def SelectedRight (group exclude : Option Text) (params : Dict Text Text) : Prop :=
  match group with
  | none => ∀ groups ∈ exclude, ¬ SharesGroup params groupName groups
  | some group => SharesGroup params groupName group →
      (params.get? excludeGroupName = none ∧ ∀ groups ∈ exclude, ¬ SharesGroup params groupName groups) ∨
      (params.get? excludeGroupName ≠ none ∧ ∃ groups, exclude = some groups ∧
        (SharesGroup params excludeGroupName groups ↔ SharesGroup params groupName groups))

instance (params : Dict Text Text) (param groups : Text) : Decidable (SharesGroup params param groups) :=
  match h : params.get? param with
  | none => isFalse (by simp [SharesGroup, h])
  | some names => decidable_of_iff (∃ name ∈ names.splitOn ';', name ∈ groups.splitOn ';') (by simp [SharesGroup, h])

instance (group exclude : Option Text) (params : Dict Text Text) : Decidable (Wanted group exclude params) :=
  inferInstanceAs (Decidable (_ ∧ _))

theorem meet_eq_true_iff {groups names : Text} {params : Dict Text Text} {param : Text}
    (h : params.get? param = some names) :
    meet (groups.splitOn ';') names = true ↔ SharesGroup params param groups := by
  simp [meet, SharesGroup, h, and_comm]

theorem skipped_of_none {testParams : Dict Text ParamValue} (h : testParams.get? groupName = none)
    (params : Dict Text Text) : skipped testParams params = some false := by
  simp [skipped, h]

/-- With `GROUP`, a test of one of its groups is skipped for its own `EXCLUDE_GROUP`. -/
theorem skipped_of_some {testParams : Dict Text ParamValue} {group : Text}
    (hgroup : testParams.get? groupName = some (.str group)) (params : Dict Text Text) :
    skipped testParams params =
      if SharesGroup params groupName group then
        match params.get? excludeGroupName with
        | none => some false
        | some excluded => ((testParams.get? excludeGroupName).bind splitGroups).map (meet · excluded)
      else some true := by
  unfold skipped
  rw [hgroup]
  cases hgroups : params.get? groupName with
  | none => simp [SharesGroup, hgroups]
  | some groups =>
      simp only [splitGroups, Option.bind_eq_bind, Option.bind_some, meet_eq_true_iff hgroups]
      by_cases hshares : SharesGroup params groupName group
      · rw [if_pos hshares, if_pos hshares]
        cases params.get? excludeGroupName with
        | none => rfl
        | some excluded => cases testParams.get? excludeGroupName <;> simp [Option.map_eq_bind]; rfl
      · rw [if_neg hshares, if_neg hshares]
        rfl

/-- A test is skipped as it should be exactly when it is selected right. -/
theorem skipped_eq_iff {testParams : Dict Text ParamValue} {group exclude : Option Text}
    (hgroup : testParams.get? groupName = group.map .str)
    (hexclude : testParams.get? excludeGroupName = exclude.map .str) (params : Dict Text Text) :
    skipped testParams params = some (!decide (Wanted group exclude params)) ↔ SelectedRight group exclude params := by
  cases group with
  | none =>
      rw [skipped_of_none hgroup]
      simp [Wanted, SelectedRight]
  | some group =>
      rw [skipped_of_some hgroup, hexclude]
      by_cases hshares : SharesGroup params groupName group
      · cases hparam : params.get? excludeGroupName with
        | none => simp [Wanted, SelectedRight, hshares, hparam]
        | some excluded =>
            cases exclude with
            | none => simp [SelectedRight, hshares, hparam]
            | some groups =>
                have hmeet : meet (groups.splitOn ';') excluded = true ↔ _ := meet_eq_true_iff hparam
                by_cases hexcluded : SharesGroup params groupName groups
                · simp [Wanted, SelectedRight, hshares, hparam, hexcluded, splitGroups, hmeet]
                · simp [Wanted, SelectedRight, hshares, hparam, hexcluded, splitGroups, ← hmeet]
      · simp [Wanted, SelectedRight, hshares]

/-! ## The tests that are run -/

section Select

variable {testParams : Dict Text ParamValue} {names : List Text}

theorem isSome_of_selectTests {selected : List Text} (h : selectTests testParams names = some selected) :
    ∀ name ∈ names, (skipped testParams (pairs name)).isSome = true := by
  induction names generalizing selected with
  | nil => simp
  | cons name names ih =>
      obtain ⟨skip, hskip, h⟩ := Option.bind_eq_some_iff.1 h
      obtain ⟨rest, hrest, -⟩ := Option.bind_eq_some_iff.1 h
      exact List.forall_mem_cons.2 ⟨by simp [hskip], ih hrest⟩

theorem selectTests_of_skipped {skip : Text → Bool}
    (h : ∀ name ∈ names, skipped testParams (pairs name) = some (skip name)) :
    selectTests testParams names = some (names.filter fun name => !skip name) := by
  induction names with
  | nil => rfl
  | cons name names ih =>
      rw [List.forall_mem_cons] at h
      unfold selectTests
      rw [h.1, ih h.2]
      cases hskip : skip name <;> simp [hskip]

/-- The tests that are run are those wanted exactly when each test is skipped as it should be. -/
theorem selectTests_eq_filter_iff (wanted : Text → Bool) :
    selectTests testParams names = some (names.filter wanted) ↔
      ∀ name ∈ names, skipped testParams (pairs name) = some (!wanted name) := by
  constructor
  · intro h name hname
    have hskip : ∀ name ∈ names, skipped testParams (pairs name)
        = some ((skipped testParams (pairs name)).getD true) := by
      intro name hname
      obtain ⟨skip, hskip⟩ := Option.isSome_iff_exists.1 (isSome_of_selectTests h name hname)
      simp [hskip]
    have hfilter := Option.some.inj ((selectTests_of_skipped hskip).symm.trans h)
    have hmem : (!(skipped testParams (pairs name)).getD true) = true ↔ wanted name = true := by
      have := congrArg (name ∈ ·) hfilter
      simpa [hname] using this
    rw [hskip name hname, Option.some.injEq]
    cases hwanted : wanted name <;> simpa [hwanted] using hmem
  · intro h
    rw [selectTests_of_skipped h]
    simp

end Select

/-- **The tests that are run are those of the groups exactly when each of them is selected right.** -/
theorem selectTests_right_iff {testParams : Dict Text ParamValue} {group exclude : Option Text}
    (hgroup : testParams.get? groupName = group.map .str)
    (hexclude : testParams.get? excludeGroupName = exclude.map .str) (names : List Text) :
    selectTests testParams names = some (names.filter fun name => Wanted group exclude (pairs name)) ↔
      ∀ name ∈ names, SelectedRight group exclude (pairs name) := by
  rw [selectTests_eq_filter_iff]
  exact forall₂_congr fun name _ => skipped_eq_iff hgroup hexclude (pairs name)

/-- Run parameters with groups to be run, and with groups to be excluded. -/
def groupParams (name : Text) : Dict Text ParamValue := (∅ : Dict Text ParamValue).set name (.str "P0".toList)

/-- A test of the group to be run, and one of another. -/
theorem selectTests_group :
    selectTests (groupParams groupName) ["t.T.one,GROUP=P0".toList, "t.T.two,GROUP=P1".toList]
      = some (["t.T.one,GROUP=P0".toList, "t.T.two,GROUP=P1".toList].filter fun name =>
          Wanted (some "P0".toList) none (pairs name)) := by
  refine (selectTests_right_iff rfl rfl _).2 ?_
  rintro name (_ | ⟨_, _ | ⟨_, ⟨⟩⟩⟩)
  · exact fun _ => .inl ⟨by decide, by simp⟩
  · exact fun _ => .inl ⟨by decide, by simp⟩

/-- A group that is to be excluded is run when no group to be run is given. -/
theorem selectTests_excluded :
    selectTests (groupParams excludeGroupName) ["t.T.one,GROUP=P0".toList] = some ["t.T.one,GROUP=P0".toList] ∧
      ["t.T.one,GROUP=P0".toList].filter (fun name => Wanted none (some "P0".toList) (pairs name)) = [] := by
  decide

end TestInfra.TestInput
