import TestInfra.Lib.DrawLoop
import TestInfra.Subdoc.Operations

set_option autoImplicit false

/-! # Sequences of operations

`build_sequence_operations` changes a document until it has made as many operations as it is asked for. Each round
collects the containers again and draws one of them and an operation for it. A round in which the operation fails
leaves no trace, so the loop goes on for ever in a document where no container admits the operation.

Whether it can come to such a document depends on the operations: with a free choice it cannot, with `array_delete` a
list runs empty. -/

namespace TestInfra.SubdocHelper

open PyText Json DrawLoop

variable {α G P : Type} [DecidableEq α]

/-! ## The loop -/

section Loop

variable (rd : RandomData α G P) (type : DataType) (force : Option Operation)

/-- A round of `build_sequence_operations`: the document, and the operations made. A dictionary with an integer as a
    key is no document; a run is not followed beyond it. -/
def sequenceTurn (d : Draw G P) (s : Json α × List (Definition α)) : Turn (Json α × List (Definition α)) :=
  let pairs := findPairsDataType s.1 [] ∅ type
  match choice pairs.items d.key with
  | none => .stop
  | some (key, data) =>
      match pick type data force d.operation with
      | .raised => .fail
      | .noMutation => .stay
      | .run op =>
          match operate rd d op s.1 key with
          | .raised => .fail
          | .intKey => .fail
          | .unchanged => .stay
          | .edited definition => .next (definition.mutatedDataSet, s.2 ++ [definition])

/-- `operation_index == max_number_operations`. -/
def enough (maxNumberOperations : ℕ) (s : Json α × List (Definition α)) : Bool := s.2.length = maxNumberOperations

/-- `build_sequence_operations`, with at most so many rounds. -/
def buildSequenceOperations (dataSet : Json α) (maxNumberOperations : ℕ) (n : ℕ) (c : ℕ → Draw G P) :
    Loop (Json α × List (Definition α)) :=
  loop (sequenceTurn rd type force) (enough maxNumberOperations) n c (dataSet, [])

end Loop

/-! ## One round -/

section Round

variable {rd : RandomData α G P} {type : DataType} {force : Option Operation}

/-- A forced operation is of the kind of every container it can be picked for. -/
def KindFits (type : DataType) (force : Option Operation) (doc : Json α) : Prop :=
  ∀ path x, Collected type doc path x → findDataType type x = true → ∀ op, force = some op → Fits op x

/-- There is nothing to choose from, or a container that admits an operation. -/
def Workable (rd : RandomData α G P) (type : DataType) (force : Option Operation) (doc : Json α) : Prop :=
  (∀ path x, ¬ Collected type doc path x) ∨
    ∃ path x, Collected type doc path x ∧ findDataType type x = true ∧ ∀ op, force = some op → Admits rd op x

/-- What a round does with the container it draws. -/
inductive Rounded (rd : RandomData α G P) (type : DataType) (force : Option Operation) (d : Draw G P)
    (s : Json α × List (Definition α)) (x : Json α) : Turn (Json α × List (Definition α)) → Prop where
  | stayed (hstay : findDataType type x = false ∨
      ∃ op, Fits op x ∧ (∀ forced, force = some forced → op = forced) ∧ pick type x force d.operation = .run op ∧
        ¬ Succeeds rd d.plain op x) : Rounded rd type force d s x .stay
  | failed (htype : findDataType type x = true) (op : Operation) (hforce : force = some op) (hnot : ¬ Fits op x) :
      Rounded rd type force d s x .fail
  | went (htype : findDataType type x = true) (op : Operation) (hfits : Fits op x)
      (hforce : ∀ forced, force = some forced → op = forced) (hsucceeds : Succeeds rd d.plain op x)
      (definition : Definition α) (happly : definition.apply s.1 = some definition.mutatedDataSet)
      (hedit : ∃ path newPath data, pythonBased rd d path op x = .edited definition.edit newPath data) :
      Rounded rd type force d s x (.next (definition.mutatedDataSet, s.2 ++ [definition]))

variable (rd force) in
theorem sequenceTurn_rounded {d : Draw G P} {s : Json α × List (Definition α)} (hread : Readable type s.1)
    {path : Text} {x : Json α} (hchoice : choice (findPairsDataType s.1 [] ∅ type).items d.key = some (path, x)) :
    Rounded rd type force d s x (sequenceTurn rd type force d s) := by
  obtain ⟨hne, hparse⟩ := hread path x (collected_of_choice hchoice)
  have hpicked := pick_pickedFor type x force d.operation
  rcases hpick : pick type x force d.operation with _ | _ | op
  · rw [hpick] at hpicked
    rcases hpicked with _ | ⟨htype, op, hforce, hnot⟩ | _
    have hturn : sequenceTurn rd type force d s = .fail := by simp only [sequenceTurn, hchoice, hpick]
    rw [hturn]
    exact .failed htype op hforce hnot
  · rw [hpick] at hpicked
    rcases hpicked with htype | _ | _
    have hturn : sequenceTurn rd type force d s = .stay := by simp only [sequenceTurn, hchoice, hpick]
    rw [hturn]
    exact .stayed (.inl htype)
  · rw [hpick] at hpicked
    rcases hpicked with _ | _ | ⟨htype, _, hfits, hforce⟩
    have hoperated := operate_operated rd d (target_of_parse op hne hparse) hfits
    rcases hoperate : operate rd d op s.1 path with _ | _ | _ | definition
    · rw [hoperate] at hoperated
      rcases hoperated
    · rw [hoperate] at hoperated
      rcases hoperated
    · rw [hoperate] at hoperated
      rcases hoperated with _ | hnot
      have hturn : sequenceTurn rd type force d s = .stay := by simp only [sequenceTurn, hchoice, hpick, hoperate]
      rw [hturn]
      exact .stayed (.inr ⟨op, hfits, hforce, hpick, hnot⟩)
    · rw [hoperate] at hoperated
      rcases hoperated with ⟨_, p, hsucceeds, -, -, -, -, hedit, happly⟩ | _
      have hturn : sequenceTurn rd type force d s = .next (definition.mutatedDataSet, s.2 ++ [definition]) := by
        simp only [sequenceTurn, hchoice, hpick, hoperate]
      rw [hturn]
      exact .went htype op hfits hforce hsucceeds definition happly ⟨path, hedit⟩

theorem sequenceTurn_of_none {d : Draw G P} {s : Json α × List (Definition α)}
    (h : choice (findPairsDataType s.1 [] ∅ type).items d.key = none) : sequenceTurn rd type force d s = .stop := by
  simp only [sequenceTurn, h]

/-- A forced operation of another kind makes the draw of the container fail. -/
theorem kindFits_of_live {s : Json α × List (Definition α)} (hread : Readable type s.1)
    (h : Live (sequenceTurn rd type force) s) : KindFits type force s.1 := by
  obtain ⟨hfail, d, -⟩ := h
  intro path x hcollected htype op hforce
  by_contra hnot
  obtain ⟨n, hn⟩ := exists_choice_of_collected hcollected
  have hrounded : Rounded rd type force { d with key := n } s x
      (sequenceTurn rd type force { d with key := n } s) := sequenceTurn_rounded rd force hread hn
  generalize hturn : sequenceTurn rd type force { d with key := n } s = turn at hrounded
  rcases hrounded with hstay | _ | ⟨_, op', hfits, hforce', _⟩
  · rcases hstay with hother | ⟨op', hfits, hforce', -⟩
    · exact Bool.false_ne_true (hother.symm.trans htype)
    · exact hnot (hforce' op hforce ▸ hfits)
  · exact hfail _ hturn
  · exact hnot (hforce' op hforce ▸ hfits)

/-- A draw that does something stops the loop, or finds a container that admits the operation. -/
theorem workable_of_live {s : Json α × List (Definition α)} (hread : Readable type s.1)
    (h : Live (sequenceTurn rd type force) s) : Workable rd type force s.1 := by
  obtain ⟨hfail, d, hd⟩ := h
  rcases hchoice : choice (findPairsDataType s.1 [] ∅ type).items d.key with _ | ⟨path, x⟩
  · exact .inl (not_collected_of_choice hchoice)
  · have hrounded := sequenceTurn_rounded rd force hread hchoice
    generalize hturn : sequenceTurn rd type force d s = turn at hrounded
    rcases hrounded with _ | _ | ⟨htype, op, hfits, hforce, hsucceeds, _⟩
    · exact absurd hturn hd
    · exact absurd hturn (hfail d)
    · refine .inr ⟨path, x, collected_of_choice hchoice, htype, fun forced hforced => ?_⟩
      rw [← hforce forced hforced]
      exact ⟨d.plain, hsucceeds⟩

theorem sequenceTurn_ne_fail {s : Json α × List (Definition α)} (hread : Readable type s.1)
    (hkind : KindFits type force s.1) (d : Draw G P) : sequenceTurn rd type force d s ≠ .fail := by
  intro hturn
  rcases hchoice : choice (findPairsDataType s.1 [] ∅ type).items d.key with _ | ⟨path, x⟩
  · rw [sequenceTurn_of_none hchoice] at hturn
    exact nomatch hturn
  · have hrounded := sequenceTurn_rounded rd force hread hchoice
    rw [hturn] at hrounded
    rcases hrounded with _ | ⟨htype, op, hforce, hnot⟩ | _
    exact hnot (hkind path x (collected_of_choice hchoice) htype op hforce)

/-- The draw of a container that admits the operation does something. -/
theorem exists_sequenceTurn_ne_stay [Nonempty G] [Nonempty P] {s : Json α × List (Definition α)}
    (hread : Readable type s.1) (hkind : KindFits type force s.1) (hwork : Workable rd type force s.1) :
    ∃ d, sequenceTurn rd type force d s ≠ .stay := by
  obtain ⟨g⟩ := ‹Nonempty G›
  obtain ⟨p⟩ := id ‹Nonempty P›
  rcases hwork with hnone | ⟨path, x, hcollected, htype, hadmits⟩
  · refine ⟨⟨0, 0, 0, g, p⟩, ?_⟩
    rw [sequenceTurn_of_none (choice_of_not_collected hnone)]
    exact fun h => nomatch h
  · obtain ⟨k, hk⟩ := exists_choice_of_collected hcollected
    obtain ⟨n, op, plain, hpick, hsucceeds⟩ := exists_pick_succeeds rd htype fun op hforce =>
      ⟨hkind path x hcollected htype op hforce, hadmits op hforce⟩
    refine ⟨⟨k, n, 0, g, plain⟩, fun hturn => ?_⟩
    have hrounded : Rounded rd type force ⟨k, n, 0, g, plain⟩ s x
        (sequenceTurn rd type force ⟨k, n, 0, g, plain⟩ s) := sequenceTurn_rounded rd force hread hk
    rw [hturn] at hrounded
    rcases hrounded with hstay | _ | _
    rcases hstay with hother | ⟨op', -, -, hpick', hnot⟩
    · exact Bool.false_ne_true (hother.symm.trans htype)
    · rw [hpick] at hpick'
      rcases hpick'
      exact hnot hsucceeds

/-- A round can do something in a document if and only if a container admits the operation. -/
theorem live_sequenceTurn_iff [Nonempty G] [Nonempty P] {s : Json α × List (Definition α)}
    (hread : Readable type s.1) :
    Live (sequenceTurn rd type force) s ↔ KindFits type force s.1 ∧ Workable rd type force s.1 := by
  constructor
  · intro h
    exact ⟨kindFits_of_live hread h, workable_of_live hread h⟩
  · rintro ⟨hkind, hwork⟩
    exact ⟨sequenceTurn_ne_fail hread hkind, exists_sequenceTurn_ne_stay hread hkind hwork⟩

theorem length_of_next {d : Draw G P} {s t : Json α × List (Definition α)}
    (h : sequenceTurn rd type force d s = .next t) : t.2.length = s.2.length + 1 := by
  rw [sequenceTurn] at h
  split at h
  · exact nomatch h
  · split at h
    · exact nomatch h
    · exact nomatch h
    · split at h
      · exact nomatch h
      · exact nomatch h
      · exact nomatch h
      · rw [← Turn.next.inj h, List.length_append, List.length_singleton]

/-- A round keeps a document plain. -/
theorem plain_of_next (hrd : PlainData rd) {d : Draw G P} {s t : Json α × List (Definition α)} (hs : Plain s.1)
    (h : sequenceTurn rd type force d s = .next t) : Plain t.1 := by
  rcases hchoice : choice (findPairsDataType s.1 [] ∅ type).items d.key with _ | ⟨path, x⟩
  · rw [sequenceTurn_of_none hchoice] at h
    exact nomatch h
  · have hrounded := sequenceTurn_rounded rd force (hs.readable type) hchoice
    rw [h] at hrounded
    rcases hrounded with _ | _ | ⟨_, op, hfits, _, _, definition, happly, hedit⟩
    obtain ⟨path', newPath, data, hresult⟩ := hedit
    obtain ⟨-, q, -, -, -, hget⟩ := hs.collected (collected_of_choice hchoice)
    obtain ⟨p, -, hupdate⟩ := Option.bind_eq_some_iff.1 happly
    have hplain := pythonBased_isPlain hrd d path' hfits (hs.get? hget) _ _ _ hresult
    exact hs.update (fun _ _ hy hrun => hplain.run hy hrun) hupdate

end Round

/-! ## Whole runs -/

section Runs

variable [Countable G] [Countable P] [Nonempty G] [Nonempty P] (rd : RandomData α G P) (type : DataType)
  (force : Option Operation)

/-- The documents, with the operations made, that the loop comes to before it has made enough of them. -/
def Reached (doc : Json α) (maxNumberOperations : ℕ) : Json α × List (Definition α) → Prop :=
  Reach (sequenceTurn rd type force) (enough maxNumberOperations) (doc, [])

/-- Under all fair choices the loop returns, with at most so many operations. -/
def AlwaysReturns (doc : Json α) (maxNumberOperations : ℕ) : Prop :=
  ∀ c : ℕ → Draw G P, Fair c → ∃ n s, buildSequenceOperations rd type force doc maxNumberOperations n c = .returned s ∧
    s.2.length ≤ maxNumberOperations

/-- Every document the loop comes to leaves it something to do. -/
def NeverStuck (doc : Json α) (maxNumberOperations : ℕ) : Prop :=
  ∀ s, Reached rd type force doc maxNumberOperations s → KindFits type force s.1 ∧ Workable rd type force s.1

variable {rd type force}

omit [Countable G] [Countable P] [Nonempty G] [Nonempty P] in
theorem plain_of_reached (hrd : PlainData rd) {doc : Json α} (hdoc : Plain doc) {max : ℕ}
    {s : Json α × List (Definition α)} (h : Reached rd type force doc max s) : Plain s.1 :=
  h.invariant (P := fun s => Plain s.1) hdoc fun _ _ _ hs hturn _ => plain_of_next hrd hs hturn

omit [Countable G] [Countable P] [Nonempty G] [Nonempty P] in
theorem length_le_of_returned {doc : Json α} {max : ℕ} (hmax : 1 ≤ max) {n : ℕ} {c : ℕ → Draw G P}
    {s : Json α × List (Definition α)} (h : buildSequenceOperations rd type force doc max n c = .returned s) :
    s.2.length ≤ max := by
  refine of_returned (P := fun s => s.2.length < max) (Q := fun s => s.2.length ≤ max) (fun _ hs => Nat.le_of_lt hs)
    (fun d s t hs hturn => ?_) hmax h
  have hlength := length_of_next hturn
  by_cases hfull : enough max t = true
  · rw [if_pos hfull]
    exact Nat.le_of_eq (of_decide_eq_true hfull)
  · rw [if_neg hfull]
    have hne : t.2.length ≠ max := fun h => hfull (decide_eq_true h)
    omega

theorem alwaysReturns_iff_of_readable {doc : Json α} {max : ℕ} (hmax : 1 ≤ max)
    (hread : ∀ s, Reached rd type force doc max s → Readable type s.1) :
    AlwaysReturns rd type force doc max ↔ NeverStuck rd type force doc max := by
  have hrank : ∀ (d : Draw G P) (s t : Json α × List (Definition α)), s.2.length < max →
      sequenceTurn rd type force d s = .next t → enough max t = false →
      t.2.length < max ∧ max - t.2.length < max - s.2.length := by
    intro d s t hs hturn hfull
    have hlength := length_of_next hturn
    have hne : t.2.length ≠ max := of_decide_eq_false hfull
    omega
  have hiff := returns_iff (s := (doc, [])) hrank hmax
  constructor
  · intro h s hs
    have hlive := hiff.1 (fun c hc => by
      obtain ⟨n, s, hn, -⟩ := h c hc
      exact ⟨n, s, hn⟩) s hs
    exact (live_sequenceTurn_iff (hread s hs)).1 hlive
  · intro h c hc
    obtain ⟨n, s, hn⟩ := hiff.2 (fun s hs => (live_sequenceTurn_iff (hread s hs)).2 (h s hs)) c hc
    exact ⟨n, s, hn, length_le_of_returned hmax hn⟩

omit [Countable G] [Countable P] [Nonempty G] [Nonempty P] in
/-- With a free choice, of containers and of operations, there is always something to do. -/
theorem neverStuck_of_free (hrd : PlainData rd) {doc : Json α} (hdoc : Plain doc) (max : ℕ) :
    NeverStuck rd .any none doc max := by
  intro s hs
  have hplain := plain_of_reached hrd hdoc hs
  refine ⟨fun _ _ _ _ _ h => (nomatch h), ?_⟩
  by_cases hcollected : ∃ path x, Collected .any s.1 path x
  · obtain ⟨path, x, h⟩ := hcollected
    exact .inr ⟨path, x, h, (hplain.collected h).1, fun _ h => (nomatch h)⟩
  · rw [not_exists] at hcollected
    exact .inl fun path => not_exists.1 (hcollected path)

/-- **When sequences come to an end**: under all fair choices if and only if the loop can come to no document in which
    containers are collected and none admits the operation, or one is not of the kind of a forced operation. So it is
    where the paths collected lead to their containers, as they do in a plain document. -/
theorem buildSequenceOperations_returns_iff (rd : RandomData α G P) (type : DataType) (force : Option Operation)
    (doc : Json α) {max : ℕ} (hmax : 1 ≤ max) :
    ((∀ s, Reached rd type force doc max s → Readable type s.1) →
      (AlwaysReturns rd type force doc max ↔ NeverStuck rd type force doc max)) ∧
    (Plain doc → PlainData rd → (AlwaysReturns rd type force doc max ↔ NeverStuck rd type force doc max)) :=
  ⟨fun hread => alwaysReturns_iff_of_readable hmax hread,
    fun hdoc hrd => alwaysReturns_iff_of_readable hmax fun _ hs => (plain_of_reached hrd hdoc hs).readable type⟩

end Runs

/-- Random numbers, as `gen_data` makes them in one of eight cases. -/
def randomInt : RandomData ℤ ℕ ℕ := ⟨fun n => ("0_random_int".toList, .scalar n), fun n => .scalar n⟩

theorem buildSequenceOperations_returns_free :
    AlwaysReturns randomInt .any none (.dict [("a".toList, .list [])]) 10 := by
  have hplain : ∀ n : ℤ, Plain (.scalar n) := fun n => ⟨wellFormed_scalar n, plainKeys_scalar n⟩
  have hfield : PlainKey "0_random_int".toList := ⟨by decide, by decide, by decide, by decide⟩
  have hrd : PlainData randomInt := ⟨fun _ => hfield, fun n => hplain n, fun n => hplain n⟩
  have hdoc : Plain (.dict [("a".toList, (.list [] : Json ℤ))]) :=
    ⟨by simp [wellFormed_dict_iff, wellFormed_list_iff], by simp [plainKeys_dict_iff, plainKeys_list_iff, PlainKey]⟩
  exact ((buildSequenceOperations_returns_iff randomInt .any none _ (by decide)).2 hdoc hrd).2
    (neverStuck_of_free hrd hdoc 10)

/-- A forced operation of the kind that `mutation_operation_type` asks for. -/
def Matching : DataType → Operation → Prop
  | .any, _ => True
  | .dict, op => ∃ o, op = .dict o
  | .array, op => ∃ o, op = .array o

/-- Nothing can be deleted from an empty list, and the loop has no other container to turn to. -/
theorem buildSequenceOperations_stuck :
    ¬ ∀ (doc : Json ℤ) (max : ℕ) (type : DataType) (force : Option Operation), 1 ≤ max →
      (∀ op, force = some op → Matching type op) → AlwaysReturns randomInt type force doc max := by
  intro h
  obtain ⟨c, hc⟩ := exists_fair (Draw ℕ ℕ)
  have hmatching : ∀ op, some (Operation.array .delete) = some op → Matching .array op := by
    rintro _ ⟨⟩
    exact ⟨.delete, rfl⟩
  obtain ⟨n, s, hn, -⟩ :=
    h (.dict [("a".toList, .list [])]) 1 .array (some (.array .delete)) (Nat.le_refl 1) hmatching c hc
  have hstay : ∀ d : Draw ℕ ℕ, sequenceTurn randomInt .array (some (.array .delete)) d
      (.dict [("a".toList, .list [])], []) = .stay := by
    intro d
    have hitems : (findPairsDataType (.dict [("a".toList, (.list [] : Json ℤ))]) [] ∅ .array).items
        = [("a".toList, .list [])] := rfl
    have hchoice : choice [("a".toList, (.list [] : Json ℤ))] d.key = some ("a".toList, .list []) := by
      rw [choice, List.length_singleton, Nat.mod_one]
      rfl
    have hpick : pick .array (.list [] : Json ℤ) (some (.array .delete)) d.operation = .run (.array .delete) := rfl
    have hoperate : operate randomInt d (.array .delete) (.dict [("a".toList, .list [])]) "a".toList = .unchanged := rfl
    simp only [sequenceTurn, hitems, hchoice, hpick, hoperate]
  rw [buildSequenceOperations, loop_of_all_stay hstay] at hn
  simp at hn

end TestInfra.SubdocHelper
