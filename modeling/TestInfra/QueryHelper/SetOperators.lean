import TestInfra.Lib.PyText
import TestInfra.Lib.SplitText

set_option autoImplicit false

/-! # Queries cut at their set operators

`_gen_select_after_analysis` (`lib/couchbase_helper/query_helper.py`) cuts the text of a query at the set operators,
one operator after the other, and leaves what is an operator by then as it is. Some operators are the first words of
others, and these come first.

`Cut` is the invariant of the six passes: the list is the query, its elements are free of the operators that have been
looked for, and no operator of the query lies across two elements. What the query is cut at is exactly an operator
(`Alternates`); between two of these there may be another one, with white space around it, which is left as it is. -/

open PyText SplitText

namespace QueryHelper

def standardTokens : List Text :=
  ["UNION ALL".toList, "INTERSECT ALL".toList, "EXCEPT ALL".toList, "UNION".toList, "INTERSECT".toList, "EXCEPT".toList]

/-- The loop over the tokens of a query, which takes two of them at a time. -/
def weave (delimit : Text) : List Text → List Text
  | [] => []
  | [token] => [token]
  | [token, next] => [token, delimit, next]
  | token :: next :: third :: tokens => token :: delimit :: next :: delimit :: weave delimit (third :: tokens)

/-- `_gen_select_delimiter_list`, with the default set operators. -/
def genSelectDelimiterList (queryTokenList : List Text) (delimit : Text) : List Text :=
  queryTokenList.flatMap fun query =>
    if strip query ∉ standardTokens then weave delimit (split delimit query) else [query]

/-- `_gen_select_after_analysis`, with the default set operators. -/
def genSelectAfterAnalysis (query : Text) : List Text :=
  standardTokens.foldl (fun list token => if token <:+: query then genSelectDelimiterList list token else list) [query]

/-! ## One element -/

theorem weave_eq (delimit : Text) (tokens : List Text) : weave delimit tokens = tokens.intersperse delimit := by
  fun_induction weave delimit tokens with
  | case1 => rfl
  | case2 => rfl
  | case3 => rfl
  | case4 token next third tokens ih => rw [ih]; rfl

theorem flatten_weave {delimit : Text} (hdelimit : delimit ≠ []) (query : Text) :
    (weave delimit (split delimit query)).flatten = query := by
  rw [weave_eq]
  exact intercalate_split hdelimit query

theorem mem_weave {delimit : Text} {tokens : List Text} {element : Text} (h : element ∈ weave delimit tokens) :
    element = delimit ∨ element ∈ tokens := by
  fun_induction weave delimit tokens with
  | case1 => exact absurd h List.not_mem_nil
  | case2 token => exact .inr h
  | case3 token next => simp at h ⊢; tauto
  | case4 token next third tokens ih =>
      simp only [List.mem_cons] at h ih ⊢
      tauto

/-- Where a woven list is taken apart, there is the delimiter on one of the sides. -/
theorem intersperse_eq_append {delimit : Text} {tokens init rest : List Text}
    (h : tokens.intersperse delimit = init ++ rest) (hinit : init ≠ []) (hrest : rest ≠ []) :
    (∃ l, init = l ++ [delimit]) ∨ ∃ l, rest = delimit :: l := by
  induction tokens generalizing init with
  | nil => exact absurd (List.append_eq_nil_iff.1 h.symm).1 hinit
  | cons token tokens ih =>
      obtain ⟨first, init, rfl⟩ := List.exists_cons_of_ne_nil hinit
      cases tokens with
      | nil =>
          rw [List.intersperse_singleton, List.cons_append, List.cons.injEq] at h
          exact absurd (List.append_eq_nil_iff.1 h.2.symm).2 hrest
      | cons next tokens =>
          rw [List.intersperse_cons_cons, List.cons_append, List.cons.injEq] at h
          obtain ⟨rfl, h⟩ := h
          rcases init with _ | ⟨second, init⟩
          · exact .inr ⟨_, h.symm⟩
          · rw [List.cons_append, List.cons.injEq] at h
            obtain ⟨rfl, h⟩ := h
            rcases eq_or_ne init [] with rfl | hne
            · exact .inl ⟨[token], rfl⟩
            · refine (ih h hne).imp_left ?_
              rintro ⟨l, rfl⟩
              exact ⟨token :: delimit :: l, rfl⟩

/-! ## Operators across elements -/

/-- The word begins in what is before and ends in what follows. -/
def Straddles (word before after : Text) : Prop :=
  ∃ u v, u ≠ [] ∧ v ≠ [] ∧ word = u ++ v ∧ u <:+ before ∧ v <+: after

/-- No occurrence of the word is cut by the list. -/
def Whole (word : Text) (list : List Text) : Prop :=
  ∀ init rest, list = init ++ rest → ¬ Straddles word init.flatten rest.flatten

/-- The element is a set operator, up to white space around it. -/
def Operator (element : Text) : Prop := strip element ∈ standardTokens

instance (element : Text) : Decidable (Operator element) := inferInstanceAs (Decidable (_ ∈ _))

theorem Whole.tail {word element : Text} {list : List Text} (h : Whole word (element :: list)) : Whole word list := by
  rintro init rest rfl ⟨u, v, hu, hv, hword, hbefore, hafter⟩
  refine h (element :: init) rest rfl ⟨u, v, hu, hv, hword, ?_, hafter⟩
  rw [List.flatten_cons]
  exact hbefore.trans (List.suffix_append ..)

/-- A word that is not cut is in one of the elements. -/
theorem Whole.exists_element {word : Text} (hword : word ≠ []) {list : List Text} (h : Whole word list) {a b : Text}
    (hflatten : list.flatten = a ++ word ++ b) :
    ∃ init element rest x y, list = init ++ element :: rest ∧ a = init.flatten ++ x ∧ element = x ++ word ++ y ∧
      b = y ++ rest.flatten := by
  induction list generalizing a with
  | nil =>
      rw [List.flatten_nil] at hflatten
      exact absurd (List.append_eq_nil_iff.1 (List.append_eq_nil_iff.1 hflatten.symm).1).2 hword
  | cons element list ih =>
      rw [List.flatten_cons, List.append_assoc] at hflatten
      rcases List.append_eq_append_iff.1 hflatten with ⟨rest, rfl, hrest⟩ | ⟨rest, rfl, hrest⟩
      · -- it begins behind the element
        rw [← List.append_assoc] at hrest
        obtain ⟨init, found, others, x, y, rfl, rfl, hfound, hb⟩ := ih h.tail hrest
        exact ⟨element :: init, found, others, x, y, rfl, by simp, hfound, hb⟩
      · rcases List.append_eq_append_iff.1 hrest with ⟨tail, rfl, rfl⟩ | ⟨tail, rfl, htail⟩
        · exact ⟨[], _, list, a, tail, rfl, rfl, by rw [List.append_assoc], rfl⟩
        · rcases eq_or_ne tail [] with rfl | hv
          · exact ⟨[], _, list, a, [], rfl, rfl, by simp, htail.symm⟩
          · rcases eq_or_ne rest [] with rfl | hu
            · -- it begins where the element ends
              obtain ⟨init, found, others, x, y, rfl, hx, hfound, hb⟩ := ih h.tail (a := []) htail
              refine ⟨_ :: init, found, others, x, y, rfl, ?_, hfound, hb⟩
              rw [List.flatten_cons, List.append_assoc, ← hx, List.append_nil, List.append_nil]
            · exact absurd ⟨rest, tail, hu, hv, rfl, by simp, ⟨b, htail.symm⟩⟩ (h [_] list rfl)

/-! ## What the query is cut at -/

/-- The elements that the query is cut at are operators, with a text before, between and behind them. -/
inductive Alternates : List Text → Prop where
  | text (element : Text) : Alternates [element]
  | cut (element : Text) {operator : Text} {list : List Text} : operator ∈ standardTokens → Alternates list →
      Alternates (element :: operator :: list)

theorem Alternates.append {list rest : List Text} {operator : Text} (h : Alternates list)
    (hoperator : operator ∈ standardTokens) (hrest : Alternates rest) : Alternates (list ++ operator :: rest) := by
  induction h with
  | text element => exact .cut element hoperator hrest
  | cut element hfirst _ ih => exact .cut element hfirst ih

theorem alternates_weave {delimit : Text} (hdelimit : delimit ∈ standardTokens) {tokens : List Text}
    (hne : tokens ≠ []) : Alternates (weave delimit tokens) := by
  rw [weave_eq]
  induction tokens with
  | nil => exact absurd rfl hne
  | cons token tokens ih =>
      cases tokens with
      | nil => exact .text token
      | cons next tokens =>
          rw [List.intersperse_cons_cons]
          exact .cut token hdelimit (ih (List.cons_ne_nil _ _))

theorem strip_of_mem_standardTokens : ∀ operator ∈ standardTokens, strip operator = operator := by decide +kernel

/-- An element that is no operator as it stands is between two operators that the query is cut at, or at its ends. -/
theorem Alternates.exact_or_between {init rest : List Text} {element : Text}
    (h : Alternates (init ++ element :: rest)) :
    element ∈ standardTokens ∨
      (∀ before ∈ init.getLast?, before ∈ standardTokens) ∧ ∀ after ∈ rest.head?, after ∈ standardTokens := by
  generalize hlist : init ++ element :: rest = list at h
  induction h generalizing init with
  | text first =>
      rcases init with _ | ⟨a, init⟩
      · obtain ⟨rfl, rfl⟩ := List.cons.inj hlist
        exact .inr ⟨fun _ h => by simp at h, fun _ h => by simp at h⟩
      · simp at hlist
  | cut first hoperator halternates ih =>
      rcases init with _ | ⟨a, _ | ⟨b, init⟩⟩
      · obtain ⟨rfl, rfl⟩ := List.cons.inj hlist
        refine .inr ⟨fun _ h => by simp at h, fun after hafter => ?_⟩
        rwa [← Option.some.inj hafter]
      · simp only [List.singleton_append, List.cons.injEq] at hlist
        obtain ⟨-, rfl, -⟩ := hlist
        exact .inl hoperator
      · simp only [List.cons_append, List.cons.injEq] at hlist
        obtain ⟨-, rfl, hlist⟩ := hlist
        refine (ih hlist).imp_right (And.imp_left fun hbefore before hlast => ?_)
        cases init with
        | nil => rwa [← Option.some.inj hlast]
        | cons c init => exact hbefore before hlast

/-! ## One pass -/

/-- The invariant: the list is the query, what it is cut at is an operator, its elements are operators or free of those
    that were looked for, and no operator is cut. -/
structure Cut (query : Text) (done list : List Text) : Prop where
  flatten : list.flatten = query
  alternates : Alternates list
  free : ∀ element ∈ list, Operator element ∨ ∀ operator ∈ done, Free operator element
  whole : ∀ operator ∈ standardTokens, Whole operator list

/-- The pass of this operator can follow those: where it can end inside of another operator, that one comes first, and
    it begins inside of none. -/
structure Follows (done : List Text) (delimit : Text) : Prop where
  mem : delimit ∈ standardTokens
  start : ∀ operator ∈ standardTokens, ∀ v ∈ operator.tails, v ≠ operator → v ≠ [] → ¬ v <+: delimit ∧ ¬ delimit <+: v
  stop : ∀ operator ∈ standardTokens, ∀ u ∈ operator.inits, u ≠ operator → u ≠ [] → u <:+ delimit ∨ delimit <:+ u →
    operator ∈ done

theorem mem_of_mem_standardTokens {delimit : Text} (h : delimit ∈ standardTokens) : delimit ≠ [] := by
  rintro rfl
  revert h
  decide

/-- An operator that lies across a place of the pieces of an element was looked for before. -/
theorem Follows.mem_done {done : List Text} {delimit : Text} (h : Follows done delimit) {element : Text}
    {init rest : List Text} (hpieces : weave delimit (split delimit element) = init ++ rest) (hinit : init ≠ [])
    (hrest : rest ≠ []) {operator : Text} (hoperator : operator ∈ standardTokens)
    (hstraddles : Straddles operator init.flatten rest.flatten) : operator ∈ done := by
  obtain ⟨u, v, hu, hv, rfl, hbefore, hafter⟩ := hstraddles
  rw [weave_eq] at hpieces
  rcases intersperse_eq_append hpieces hinit hrest with ⟨l, rfl⟩ | ⟨l, rfl⟩
  · have hdelimit : delimit <:+ (l ++ [delimit]).flatten := by simp
    refine h.stop _ hoperator u ((List.mem_inits ..).2 (List.prefix_append ..)) (fun heq => hv ?_) hu ?_
    · exact List.append_right_eq_self.1 heq.symm
    · exact List.suffix_or_suffix_of_suffix hbefore hdelimit
  · have hdelimit : delimit <+: (delimit :: l).flatten := by simp
    obtain ⟨hleft, hright⟩ := h.start _ hoperator v ((List.mem_tails ..).2 (List.suffix_append ..))
      (fun heq => hu (List.append_left_eq_self.1 heq.symm)) hv
    rcases List.prefix_or_prefix_of_prefix hafter hdelimit with hle | hle
    · exact absurd hle hleft
    · exact absurd hle hright

/-- What an element becomes. -/
def pieces (delimit query : Text) : List Text :=
  if strip query ∉ standardTokens then weave delimit (split delimit query) else [query]

theorem flatten_pieces {delimit : Text} (hdelimit : delimit ≠ []) (query : Text) :
    (pieces delimit query).flatten = query := by
  unfold pieces
  split
  · exact flatten_weave hdelimit query
  · exact List.flatten_singleton

theorem flatten_genSelectDelimiterList {delimit : Text} (hdelimit : delimit ≠ []) (list : List Text) :
    (genSelectDelimiterList list delimit).flatten = list.flatten := by
  induction list with
  | nil => rfl
  | cons query list ih =>
      have hpieces := flatten_pieces hdelimit query
      rw [pieces] at hpieces
      rw [genSelectDelimiterList, List.flatMap_cons, List.flatten_append, List.flatten_cons, hpieces]
      exact congrArg _ ih

theorem suffix_append_cases {u a b : Text} (h : u <:+ a ++ b) :
    u <:+ b ∨ ∃ u', u' ≠ [] ∧ u = u' ++ b ∧ u' <:+ a := by
  rcases List.suffix_or_suffix_of_suffix h (List.suffix_append a b) with hle | ⟨u', rfl⟩
  · exact .inl hle
  · rcases eq_or_ne u' [] with rfl | hne
    · exact .inl (by simp)
    · exact .inr ⟨u', hne, rfl, List.suffix_append_self_iff.1 h⟩

theorem prefix_append_cases {v a b : Text} (h : v <+: a ++ b) :
    v <+: a ∨ ∃ v', v' ≠ [] ∧ v = a ++ v' ∧ v' <+: b := by
  rcases List.prefix_or_prefix_of_prefix h (List.prefix_append a b) with hle | ⟨v', rfl⟩
  · exact .inl hle
  · rcases eq_or_ne v' [] with rfl | hne
    · exact .inl (by simp)
    · exact .inr ⟨v', hne, rfl, (List.prefix_append_right_inj a).1 h⟩

/-- A word that lies across a place inside of an element lies across the element's ends, or is in the element. -/
theorem Straddles.cases {word before x y after : Text} (h : Straddles word (before ++ x) (y ++ after)) :
    Straddles word before (x ++ y ++ after) ∨ Straddles word (before ++ (x ++ y)) after ∨ Straddles word x y := by
  obtain ⟨u, v, hu, hv, rfl, hbefore, hafter⟩ := h
  rcases suffix_append_cases hbefore with hx | ⟨u', hu', rfl, hsuffix⟩
  · rcases prefix_append_cases hafter with hy | ⟨v', hv', rfl, hstart⟩
    · exact .inr (.inr ⟨u, v, hu, hv, rfl, hx, hy⟩)
    · refine .inr (.inl ⟨u ++ y, v', by simp [hu], hv', by rw [List.append_assoc], ?_, hstart⟩)
      rw [← List.append_assoc]
      exact List.suffix_append_self_iff.2 hbefore
  · refine .inl ⟨u', x ++ v, hu', by simp [hv], by rw [List.append_assoc], hsuffix, ?_⟩
    rw [List.append_assoc]
    exact (List.prefix_append_right_inj x).2 hafter

theorem Straddles.occurs {word x y : Text} (h : Straddles word x y) : word <:+: x ++ y :=
  infix_append_iff.2 (.inr (.inr h))

/-- The pieces of the elements so far are the elements. -/
theorem flatten_map_pieces {delimit : Text} (hdelimit : delimit ≠ []) (list : List Text) :
    (list.map (pieces delimit)).flatten.flatten = list.flatten := flatten_genSelectDelimiterList hdelimit list

/-- An operator that the list does not cut is not cut by the pieces of its elements. -/
theorem Cut.whole_pass {query delimit : Text} {done list : List Text} (h : Cut query done list)
    (hfollows : Follows done delimit) {operator : Text} (hoperator : operator ∈ standardTokens) :
    Whole operator (genSelectDelimiterList list delimit) := by
  have hdelimit := mem_of_mem_standardTokens hfollows.mem
  have hwhole := h.whole operator hoperator
  intro init rest heq hstraddles
  replace heq : (list.map (pieces delimit)).flatten = init ++ rest := heq
  rcases List.flatten_eq_append_iff.1 heq with ⟨as, bs, hmap, rfl, rfl⟩ | ⟨as, bs, c, cs, ds, hmap, rfl, rfl⟩
  · -- between two elements
    obtain ⟨before, after, rfl, rfl, rfl⟩ := List.map_eq_append_iff.1 hmap
    rw [flatten_map_pieces hdelimit, flatten_map_pieces hdelimit] at hstraddles
    exact hwhole before after rfl hstraddles
  · obtain ⟨before, rest, rfl, rfl, hrest⟩ := List.map_eq_append_iff.1 hmap
    obtain ⟨element, after, rfl, hpieces, rfl⟩ := List.map_eq_cons_iff.1 hrest
    have helement := flatten_pieces hdelimit element
    rw [hpieces, List.flatten_append] at helement
    rw [List.flatten_append, List.flatten_append, flatten_map_pieces hdelimit, flatten_map_pieces hdelimit]
      at hstraddles
    rcases hstraddles.cases with hleft | hright | hinside
    · refine hwhole before (element :: after) rfl ?_
      rwa [List.flatten_cons, ← helement]
    · refine hwhole (before ++ [element]) after (by simp) ?_
      rwa [List.flatten_append, List.flatten_singleton, ← helement]
    · -- inside of an element, which the pass has taken apart
      have hne : bs ≠ [] := by
        rintro rfl
        obtain ⟨u, v, hu, -, -, hsuffix, -⟩ := hinside
        exact hu (List.suffix_nil.1 hsuffix)
      unfold pieces at hpieces
      split at hpieces
      · next hnot =>
          have hmem := hfollows.mem_done hpieces hne (List.cons_ne_nil c cs) hoperator hinside
          have hfree := (h.free element (by simp)).resolve_left hnot operator hmem
          rw [← helement] at hfree
          exact hfree hinside.occurs
      · rw [List.singleton_eq_append_iff] at hpieces
        simp [hne] at hpieces

/-- A pass cuts the texts between the operators, and leaves these as they are. -/
theorem Alternates.pass {delimit : Text} (hdelimit : delimit ∈ standardTokens) {list : List Text}
    (h : Alternates list) : Alternates (genSelectDelimiterList list delimit) := by
  have hpieces : ∀ element, Alternates (pieces delimit element) := by
    intro element
    unfold pieces
    split
    · exact alternates_weave hdelimit (split_ne_nil (mem_of_mem_standardTokens hdelimit) element)
    · exact .text element
  induction h with
  | text element =>
      have hone : genSelectDelimiterList [element] delimit = pieces delimit element := List.flatMap_singleton ..
      rw [hone]
      exact hpieces element
  | @cut element operator list hoperator _ ih =>
      have hkept : pieces delimit operator = [operator] := by
        rw [pieces, strip_of_mem_standardTokens operator hoperator, if_neg (not_not.2 hoperator)]
      have hcut : genSelectDelimiterList (element :: operator :: list) delimit =
          pieces delimit element ++ (pieces delimit operator ++ genSelectDelimiterList list delimit) := rfl
      rw [hcut, hkept]
      exact (hpieces element).append hoperator ih

/-- A pass keeps the invariant. -/
theorem Cut.pass {query delimit : Text} {done list : List Text} (h : Cut query done list)
    (hfollows : Follows done delimit) : Cut query (done ++ [delimit]) (genSelectDelimiterList list delimit) where
  flatten := by rw [flatten_genSelectDelimiterList (mem_of_mem_standardTokens hfollows.mem), h.flatten]
  alternates := h.alternates.pass hfollows.mem
  free := by
    intro element helement
    have hdelimit := mem_of_mem_standardTokens hfollows.mem
    obtain ⟨query, hquery, helement⟩ := List.mem_flatMap.1 helement
    split at helement
    · next hoperator =>
        rcases mem_weave helement with rfl | hpiece
        · refine .inl ?_
          rw [Operator, strip_of_mem_standardTokens _ hfollows.mem]
          exact hfollows.mem
        · right
          have hfree := (h.free query hquery).resolve_left hoperator
          intro operator hmem
          rcases List.mem_append.1 hmem with hmem | hmem
          · exact (hfree operator hmem).of_part (infix_of_mem_split hdelimit query element hpiece)
          · rw [List.mem_singleton.1 hmem]
            exact free_of_mem_split hdelimit query element hpiece
    · next hoperator =>
        rw [List.mem_singleton.1 helement]
        exact .inl (not_not.1 hoperator)
  whole := fun operator hoperator => h.whole_pass hfollows hoperator

/-! ## The passes -/

/-- The query is uncut, and nothing was looked for. -/
theorem cut_start (query : Text) : Cut query [] [query] where
  flatten := List.flatten_singleton
  alternates := .text query
  free := fun _ _ => .inr fun _ h => absurd h List.not_mem_nil
  whole := by
    rintro operator - init rest heq ⟨u, v, hu, hv, -, hbefore, hafter⟩
    rcases init with _ | ⟨element, init⟩
    · exact hu (List.suffix_nil.1 hbefore)
    · rw [List.cons_append, List.cons.injEq] at heq
      obtain ⟨-, hnil⟩ := heq
      obtain ⟨-, rfl⟩ := List.append_eq_nil_iff.1 hnil.symm
      exact hv (List.prefix_nil.1 hafter)

/-- A pass that the query does not need. -/
theorem Cut.skip {query delimit : Text} {done list : List Text} (h : Cut query done list)
    (hfree : Free delimit query) : Cut query (done ++ [delimit]) list where
  flatten := h.flatten
  alternates := h.alternates
  free := by
    intro element helement
    refine (h.free element helement).imp_right fun hdone operator hmem => ?_
    rcases List.mem_append.1 hmem with hmem | hmem
    · exact hdone operator hmem
    · rw [List.mem_singleton.1 hmem]
      obtain ⟨before, after, rfl⟩ := List.append_of_mem helement
      refine hfree.of_part ⟨before.flatten, after.flatten, ?_⟩
      rw [← h.flatten, List.flatten_append, List.flatten_cons, List.append_assoc]
  whole := h.whole

theorem Cut.step {query delimit : Text} {done list : List Text} (h : Cut query done list)
    (hfollows : Follows done delimit) :
    Cut query (done ++ [delimit]) (if delimit <:+: query then genSelectDelimiterList list delimit else list) := by
  split
  · exact h.pass hfollows
  · next hfree => exact h.skip hfree

instance (done : List Text) (delimit : Text) : Decidable (Follows done delimit) :=
  decidable_of_iff
    (delimit ∈ standardTokens ∧
      (∀ operator ∈ standardTokens, ∀ v ∈ operator.tails, v ≠ operator → v ≠ [] → ¬ v <+: delimit ∧ ¬ delimit <+: v) ∧
      ∀ operator ∈ standardTokens, ∀ u ∈ operator.inits, u ≠ operator → u ≠ [] → u <:+ delimit ∨ delimit <:+ u →
        operator ∈ done)
    ⟨fun ⟨mem, start, stop⟩ => ⟨mem, start, stop⟩, fun h => ⟨h.mem, h.start, h.stop⟩⟩

/-- The operators are in an order that works. -/
theorem follows_take : ∀ i : Fin standardTokens.length, Follows (standardTokens.take i) standardTokens[i] := by
  decide +kernel

theorem cut_genSelectAfterAnalysis (query : Text) : Cut query standardTokens (genSelectAfterAnalysis query) := by
  have h (i : ℕ) (hi : i < standardTokens.length) := follows_take ⟨i, hi⟩
  have h₀ := (cut_start query).step (h 0 (by decide))
  have h₁ := h₀.step (h 1 (by decide))
  have h₂ := h₁.step (h 2 (by decide))
  have h₃ := h₂.step (h 3 (by decide))
  have h₄ := h₃.step (h 4 (by decide))
  exact h₄.step (h 5 (by decide))

/-- **The cut is exact**: for any query, the list is the query again; what it is cut at is exactly an operator; an
    element that is no operator holds none of them; no operator of the query is cut, and each is in an element that is
    an operator, as it stands or, between two of those that the query is cut at, with white space around it. -/
theorem genSelectAfterAnalysis_exact (query : Text) :
    (genSelectAfterAnalysis query).flatten = query ∧
    Alternates (genSelectAfterAnalysis query) ∧
    (∀ element ∈ genSelectAfterAnalysis query, Operator element ∨ ∀ operator ∈ standardTokens, Free operator element) ∧
    (∀ operator ∈ standardTokens, Whole operator (genSelectAfterAnalysis query)) ∧
    ∀ operator ∈ standardTokens, ∀ a b, query = a ++ operator ++ b →
      ∃ init element rest x y, genSelectAfterAnalysis query = init ++ element :: rest ∧ a = init.flatten ++ x ∧
        element = x ++ operator ++ y ∧ b = y ++ rest.flatten ∧ Operator element ∧
        (element ∈ standardTokens ∨
          (∀ before ∈ init.getLast?, before ∈ standardTokens) ∧ ∀ after ∈ rest.head?, after ∈ standardTokens) := by
  have hcut := cut_genSelectAfterAnalysis query
  refine ⟨hcut.flatten, hcut.alternates, hcut.free, hcut.whole, fun operator hoperator a b hquery => ?_⟩
  obtain ⟨init, element, rest, x, y, hlist, ha, helement, hb⟩ :=
    (hcut.whole operator hoperator).exists_element (mem_of_mem_standardTokens hoperator) (hcut.flatten.trans hquery)
  have halternates := hcut.alternates
  rw [hlist] at halternates
  refine ⟨init, element, rest, x, y, hlist, ha, helement, hb, ?_, halternates.exact_or_between⟩
  refine (hcut.free element (by rw [hlist]; simp)).resolve_right fun hfree => hfree operator hoperator ?_
  exact ⟨x, y, helement.symm⟩

end QueryHelper
