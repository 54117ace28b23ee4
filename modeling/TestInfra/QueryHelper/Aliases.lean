import TestInfra.Lib.Replace
import TestInfra.Lib.PyList
import TestInfra.Lib.SplitOn

set_option autoImplicit false

/-! # Aliases of nested subqueries

`_convert_sql_template_to_value_nested_subqueries` (`lib/couchbase_helper/query_helper.py`) draws an alias for each
token with `TABLE_ALIAS.*` and writes it again for the token with `TABLE_ALIAS` that closes the group.

The aliases are kept in a list that is not shortened when a group is closed, and a group is closed with the entry whose
number is the count of open groups. That is the alias of the group as long as no group has been closed before it was
opened. -/

open PyText PyList

namespace QueryHelper

/-! ## The conversion -/

/-- `"TABLE_ALIAS" in token`. -/
def hasAlias (token : Text) : Bool := decide ("TABLE_ALIAS".toList <:+: token)

/-- `"TABLE_ALIAS.*" in token`. -/
def isOpening (token : Text) : Bool := decide ("TABLE_ALIAS.*".toList <:+: token)

/-- The tokens for which a group is closed. -/
def isClosing (token : Text) : Bool := hasAlias token && !isOpening token

/-- The alias with the letter of `_random_char()`. -/
def aliasName (letter : Char) : Text := "sb_t_".toList ++ [letter]

/-- `token.replace("TABLE_ALIAS", alias_name) + space`. -/
def writeAlias (token name : Text) : Text := replace "TABLE_ALIAS".toList name token ++ [' ']

/-- The loop over the tokens; `letters` are the ones that are drawn, one after the other. `none` is the `IndexError`. -/
def nestedLoop (letters : ℕ → Char) : List Text → List Text → ℤ → Option Text
  | [], _, _ => some []
  | token :: tokens, tableAliasList, aliasCount =>
      if hasAlias token then
        if isOpening token then
          let name := aliasName (letters tableAliasList.length)
          (nestedLoop letters tokens (tableAliasList ++ [name]) (aliasCount + 1)).map (writeAlias token name ++ ·)
        else
          (item tableAliasList (aliasCount - 1)).bind fun name =>
            (nestedLoop letters tokens tableAliasList (aliasCount - 1)).map (writeAlias token name ++ ·)
      else (nestedLoop letters tokens tableAliasList aliasCount).map ((token ++ [' ']) ++ ·)

/-- `_convert_sql_template_to_value_nested_subqueries`. -/
def convertNestedSubqueries (letters : ℕ → Char) (n1qlTemplate : Text) : Option Text :=
  nestedLoop letters (n1qlTemplate.splitOn ' ') [] 0

/-! ## What is meant -/

/-- Tokens that are nested like brackets. -/
inductive Nested : List Text → Prop
  | nil : Nested []
  | other {token : Text} {tokens : List Text} (hopening : isOpening token = false)
      (hclosing : isClosing token = false) (htokens : Nested tokens) : Nested (token :: tokens)
  | group {opening closing : Text} {inner tokens : List Text} (hopening : isOpening opening) (hinner : Nested inner)
      (hclosing : isClosing closing) (htokens : Nested tokens) : Nested (opening :: inner ++ closing :: tokens)

/-- The text where each group is closed with its own alias: the numbers of the open groups are on a stack. -/
def matchedLoop (letters : ℕ → Char) : List Text → ℕ → List ℕ → Option Text
  | [], _, _ => some []
  | token :: tokens, drawn, stack =>
      if isOpening token then
        (matchedLoop letters tokens (drawn + 1) (drawn :: stack)).map
          (writeAlias token (aliasName (letters drawn)) ++ ·)
      else if isClosing token then
        stack.head?.bind fun group =>
          (matchedLoop letters tokens drawn stack.tail).map (writeAlias token (aliasName (letters group)) ++ ·)
      else (matchedLoop letters tokens drawn stack).map ((token ++ [' ']) ++ ·)

def matched (letters : ℕ → Char) (n1qlTemplate : Text) : Option Text :=
  matchedLoop letters (n1qlTemplate.splitOn ' ') 0 []

/-- The groups opened and closed by tokens. -/
def opened (tokens : List Text) : ℕ := tokens.countP isOpening
def closed (tokens : List Text) : ℕ := tokens.countP isClosing

/-- Each group has the letter of the group whose number is the count of groups that are open where it begins, when so
    many were drawn and are open before the tokens. -/
def Alike (letters : ℕ → Char) (drawn depth : ℕ) (tokens : List Text) : Prop :=
  ∀ before token after, tokens = before ++ token :: after → isOpening token = true →
    letters (drawn + opened before) = letters (depth + opened before - closed before)

/-! ## Nested tokens -/

variable {letters : ℕ → Char} {token : Text} {tokens rest : List Text} {drawn depth : ℕ}

theorem opened_cons (token : Text) (tokens : List Text) :
    opened (token :: tokens) = opened tokens + if isOpening token then 1 else 0 := List.countP_cons

theorem closed_cons (token : Text) (tokens : List Text) :
    closed (token :: tokens) = closed tokens + if isClosing token then 1 else 0 := List.countP_cons

theorem isClosing_of_isOpening (h : isOpening token = true) : isClosing token = false := by
  rw [isClosing, h, Bool.not_true, Bool.and_false]

theorem isOpening_of_isClosing (h : isClosing token = true) : isOpening token = false := by
  rw [isClosing, Bool.and_eq_true, Bool.not_eq_true'] at h
  exact h.2

theorem hasAlias_of_isClosing (h : isClosing token = true) : hasAlias token = true := by
  rw [isClosing, Bool.and_eq_true] at h
  exact h.1

theorem hasAlias_of_isOpening (h : isOpening token = true) : hasAlias token = true := by
  have hpart : "TABLE_ALIAS".toList <:+: "TABLE_ALIAS.*".toList := by decide
  exact decide_eq_true (hpart.trans (of_decide_eq_true h))

theorem hasAlias_of_other (hopening : isOpening token = false) (hclosing : isClosing token = false) :
    hasAlias token = false := by
  rwa [isClosing, hopening, Bool.not_false, Bool.and_true] at hclosing

theorem alike_nil : Alike letters drawn depth [] := by
  intro before token after h
  exact absurd h.symm (List.append_ne_nil_of_right_ne_nil _ (List.cons_ne_nil _ _))

/-- The first token, and the ones behind it. -/
theorem alike_cons (drawn' depth' : ℕ) (hdrawn : ∀ before, drawn + opened (token :: before) = drawn' + opened before)
    (hdepth : ∀ before, depth + opened (token :: before) - closed (token :: before)
      = depth' + opened before - closed before) :
    Alike letters drawn depth (token :: tokens) ↔
      (isOpening token = true → letters drawn = letters depth) ∧ Alike letters drawn' depth' tokens := by
  constructor
  · intro h
    refine ⟨fun htoken => h [] token tokens rfl htoken, fun before next after heq hnext => ?_⟩
    have hnext := h (token :: before) next after (by rw [heq]; rfl) hnext
    rwa [hdrawn, hdepth] at hnext
  · intro h before next after heq hnext
    rcases before with _ | ⟨first, before⟩
    · rw [List.nil_append, List.cons.injEq] at heq
      exact h.1 (heq.1 ▸ hnext)
    · rw [List.cons_append, List.cons.injEq] at heq
      obtain ⟨rfl, heq⟩ := heq
      rw [hdrawn, hdepth]
      exact h.2 before next after heq hnext

theorem alike_other (hopening : isOpening token = false) (hclosing : isClosing token = false) :
    Alike letters drawn depth (token :: tokens) ↔ Alike letters drawn depth tokens := by
  have hopened : ∀ before, opened (token :: before) = opened before := fun before => by
    rw [opened_cons, hopening, if_neg Bool.false_ne_true, Nat.add_zero]
  have hclosed : ∀ before, closed (token :: before) = closed before := fun before => by
    rw [closed_cons, hclosing, if_neg Bool.false_ne_true, Nat.add_zero]
  rw [alike_cons drawn depth (fun before => by rw [hopened])
    fun before => by rw [hopened, hclosed]]
  exact and_iff_right fun h => absurd (h.symm.trans hopening) (by decide)

theorem alike_opening (hopening : isOpening token = true) : Alike letters drawn depth (token :: tokens) ↔
    letters drawn = letters depth ∧ Alike letters (drawn + 1) (depth + 1) tokens := by
  have hopened : ∀ before, opened (token :: before) = opened before + 1 := fun before => by
    rw [opened_cons, if_pos hopening]
  have hclosed : ∀ before, closed (token :: before) = closed before := fun before => by
    rw [closed_cons, isClosing_of_isOpening hopening, if_neg Bool.false_ne_true, Nat.add_zero]
  rw [alike_cons (drawn + 1) (depth + 1) (fun before => by rw [hopened]; omega)
    fun before => by rw [hopened, hclosed]; omega]
  exact and_congr_left' ⟨fun h => h hopening, fun h _ => h⟩

theorem alike_closing (hclosing : isClosing token = true) :
    Alike letters drawn (depth + 1) (token :: tokens) ↔ Alike letters drawn depth tokens := by
  have hopening := isOpening_of_isClosing hclosing
  have hopened : ∀ before, opened (token :: before) = opened before := fun before => by
    rw [opened_cons, hopening, if_neg Bool.false_ne_true, Nat.add_zero]
  have hclosed : ∀ before, closed (token :: before) = closed before + 1 := fun before => by
    rw [closed_cons, if_pos hclosing]
  rw [alike_cons drawn depth (fun before => by rw [hopened])
    fun before => by rw [hopened, hclosed]; omega]
  exact and_iff_right fun h => absurd (h.symm.trans hopening) (by decide)

theorem opened_group {opening closing : Text} (hopening : isOpening opening = true)
    (hclosing : isClosing closing = true) (inner tokens : List Text) :
    opened (opening :: inner ++ closing :: tokens) = 1 + opened inner + opened tokens := by
  rw [opened, List.countP_append, ← opened, ← opened, opened_cons, if_pos hopening, opened_cons,
    isOpening_of_isClosing hclosing, if_neg Bool.false_ne_true]
  omega

/-- What is nested leaves the depth as it was. -/
theorem Nested.alike_append (h : Nested tokens) (drawn depth : ℕ) (rest : List Text) :
    Alike letters drawn depth (tokens ++ rest) ↔
      Alike letters drawn depth tokens ∧ Alike letters (drawn + opened tokens) depth rest := by
  induction h generalizing drawn depth rest with
  | nil => exact (and_iff_right alike_nil).symm
  | other hopening hclosing _ ih =>
      rw [List.cons_append, alike_other hopening hclosing, alike_other hopening hclosing, ih, opened_cons, hopening,
        if_neg Bool.false_ne_true, Nat.add_zero]
  | @group opening closing inner tokens hopening _ hclosing _ ihinner ihtokens =>
      have hopened : drawn + opened (opening :: inner ++ closing :: tokens)
          = drawn + 1 + opened inner + opened tokens := by
        rw [opened_group hopening hclosing]
        omega
      rw [hopened, List.append_assoc, List.cons_append, List.cons_append, List.cons_append, alike_opening hopening,
        alike_opening hopening, ihinner, ihinner, alike_closing hclosing, alike_closing hclosing, ihtokens, and_assoc,
        and_assoc]

theorem Nested.opened_eq (h : Nested tokens) : opened tokens = closed tokens := by
  induction h with
  | nil => rfl
  | other hopening hclosing _ ih => rw [opened_cons, closed_cons, hopening, hclosing, ih]
  | @group opening closing inner tokens hopening _ hclosing _ ihinner ihtokens =>
      rw [opened_group hopening hclosing, closed, List.countP_append, ← closed, ← closed, closed_cons,
        isClosing_of_isOpening hopening, closed_cons, if_pos hclosing, if_neg Bool.false_ne_true, ihinner, ihtokens]
      omega

/-- No group is closed before it is opened. -/
theorem Nested.closed_le (h : Nested tokens) {before : List Text} (hbefore : before <+: tokens) :
    closed before ≤ opened before := by
  induction h generalizing before with
  | nil => rw [List.prefix_nil.1 hbefore]; exact le_rfl
  | other hopening hclosing _ ih =>
      rcases List.prefix_cons_iff.1 hbefore with rfl | ⟨rest, rfl, hrest⟩
      · exact le_rfl
      · have hle := ih hrest
        rw [opened_cons, closed_cons, hopening, hclosing]
        omega
  | @group opening closing inner tokens hopening hinner hclosing _ ihinner ihtokens =>
      rcases List.prefix_cons_iff.1 hbefore with rfl | ⟨rest, rfl, hrest⟩
      · exact le_rfl
      rw [opened_cons, closed_cons, if_pos hopening, isClosing_of_isOpening hopening, if_neg Bool.false_ne_true]
      rcases List.prefix_or_prefix_of_prefix hrest (List.prefix_append inner (closing :: tokens)) with hin | ⟨more, rfl⟩
      · have hle := ihinner hin
        omega
      · have hbalanced := hinner.opened_eq
        rw [opened, closed, List.countP_append, List.countP_append, ← opened, ← opened, ← closed, ← closed]
        rcases List.prefix_cons_iff.1 ((List.prefix_append_right_inj inner).1 hrest) with rfl | ⟨more, rfl, hmore⟩
        · rw [hbalanced]
          exact Nat.le_succ _
        · have hle := ihtokens hmore
          rw [opened_cons, closed_cons, isOpening_of_isClosing hclosing, if_pos hclosing, if_neg Bool.false_ne_true]
          omega

/-! ## What is written for nested tokens -/

/-- `table_alias_list` when so many letters have been drawn. -/
def names (letters : ℕ → Char) (drawn : ℕ) : List Text := (List.range drawn).map fun k => aliasName (letters k)

theorem length_names : (names letters drawn).length = drawn := by rw [names, List.length_map, List.length_range]

theorem names_succ : names letters drawn ++ [aliasName (letters drawn)] = names letters (drawn + 1) := by
  rw [names, names, List.range_succ, List.map_append]
  rfl

theorem item_names {group : ℕ} (h : group < drawn) :
    item (names letters drawn) (((group + 1 : ℕ) : ℤ) - 1) = some (aliasName (letters group)) := by
  rw [show ((group + 1 : ℕ) : ℤ) - 1 = group by omega, item_natCast, names, List.getElem?_map, List.getElem?_range h]
  rfl

theorem length_writeAlias (token : Text) (letter letter' : Char) :
    (writeAlias token (aliasName letter)).length = (writeAlias token (aliasName letter')).length := by
  have hname : (aliasName letter).length = (aliasName letter').length := rfl
  rw [writeAlias, writeAlias, List.length_append, List.length_append, length_replace hname]

theorem writeAlias_inj (h : hasAlias token = true) {letter letter' : Char} :
    writeAlias token (aliasName letter) = writeAlias token (aliasName letter') ↔ letter = letter' := by
  refine ⟨fun heq => ?_, fun heq => by rw [heq]⟩
  rw [writeAlias, writeAlias, List.append_cancel_right_eq] at heq
  have hlength : (aliasName letter).length = (aliasName letter').length := rfl
  have hname := eq_of_replace_eq (List.cons_ne_nil _ _) hlength (of_decide_eq_true h) heq
  exact List.singleton_inj.1 (List.append_cancel_left hname)

/-- What the two loops write for tokens, whatever follows them: the texts are as long, and the same if the letters are
    alike. -/
structure Writes (letters : ℕ → Char) (tokens : List Text) (drawn : ℕ) (stack : List ℕ) (out expected : Text) :
    Prop where
  nested : ∀ rest, nestedLoop letters (tokens ++ rest) (names letters drawn) stack.length
    = (nestedLoop letters rest (names letters (drawn + opened tokens)) stack.length).map (out ++ ·)
  matched : ∀ rest, matchedLoop letters (tokens ++ rest) drawn stack
    = (matchedLoop letters rest (drawn + opened tokens) stack).map (expected ++ ·)
  length_eq : out.length = expected.length
  eq_iff : out = expected ↔ Alike letters drawn stack.length tokens

theorem map_append_map (a b : Text) (x : Option Text) :
    (x.map (b ++ ·)).map (a ++ ·) = x.map ((a ++ b) ++ ·) := by
  rw [Option.map_map]
  exact congrArg (x.map ·) (funext fun c => (List.append_assoc a b c).symm)

theorem Nested.writes (h : Nested tokens) (letters : ℕ → Char) (drawn : ℕ) (stack : List ℕ)
    (hstack : stack.length ≤ drawn) : ∃ out expected, Writes letters tokens drawn stack out expected := by
  induction h generalizing drawn stack with
  | nil =>
      refine ⟨[], [], fun rest => ?_, fun rest => ?_, rfl, iff_of_true rfl alike_nil⟩
      all_goals exact Option.map_id'.symm
  | @other token tokens hopening hclosing _ ih =>
      obtain ⟨out, expected, hnested, hmatched, hlength, heq⟩ := ih drawn stack hstack
      have hopened : opened (token :: tokens) = opened tokens := by
        rw [opened_cons, hopening, if_neg Bool.false_ne_true, Nat.add_zero]
      refine ⟨token ++ [' '] ++ out, token ++ [' '] ++ expected, fun rest => ?_, fun rest => ?_, ?_, ?_⟩
      · rw [List.cons_append, nestedLoop, hasAlias_of_other hopening hclosing, if_neg Bool.false_ne_true, hnested,
          map_append_map, hopened]
      · rw [List.cons_append, matchedLoop, hopening, if_neg Bool.false_ne_true, hclosing, if_neg Bool.false_ne_true,
          hmatched, map_append_map, hopened]
      · simp only [List.length_append, hlength]
      · rw [List.append_cancel_left_eq, heq, alike_other hopening hclosing]
  | @group opening closing inner tokens hopening hinner hclosing _ ihinner ihtokens =>
      obtain ⟨in₁, in₂, hnested, hmatched, hlength, heq⟩ :=
        ihinner (drawn + 1) (drawn :: stack) (Nat.succ_le_succ hstack)
      obtain ⟨out, expected, hnested', hmatched', hlength', heq'⟩ :=
        ihtokens (drawn + 1 + opened inner) stack (by omega)
      have hopened : drawn + opened (opening :: inner ++ closing :: tokens)
          = drawn + 1 + opened inner + opened tokens := by
        rw [opened_group hopening hclosing]
        omega
      rw [List.length_cons] at heq
      have hsplit : ∀ rest, opening :: inner ++ closing :: tokens ++ rest
          = opening :: (inner ++ closing :: (tokens ++ rest)) := fun rest => by simp
      -- the code closes the group with the letter for its depth, `matchedLoop` with its own
      let write (group : ℕ) := writeAlias closing (aliasName (letters group))
      let begin := writeAlias opening (aliasName (letters drawn))
      refine ⟨begin ++ in₁ ++ write stack.length ++ out, begin ++ in₂ ++ write drawn ++ expected,
        fun rest => ?_, fun rest => ?_, ?_, ?_⟩
      · have hitem : item (names letters (drawn + 1 + opened inner)) (((stack.length + 1 : ℕ) : ℤ) - 1)
            = some (aliasName (letters stack.length)) := item_names (by omega)
        rw [hsplit, nestedLoop, if_pos (hasAlias_of_isOpening hopening), if_pos hopening]
        simp only [length_names, names_succ]
        rw [show ((stack.length : ℤ) + 1) = ((drawn :: stack).length : ℕ) from rfl, hnested, nestedLoop,
          if_pos (hasAlias_of_isClosing hclosing), isOpening_of_isClosing hclosing, if_neg Bool.false_ne_true,
          List.length_cons, hitem, Option.bind_some, show ((stack.length + 1 : ℕ) : ℤ) - 1 = stack.length by omega,
          hnested', hopened, map_append_map, map_append_map, map_append_map]
      · rw [hsplit, matchedLoop, if_pos hopening, hmatched, matchedLoop, isOpening_of_isClosing hclosing,
          if_neg Bool.false_ne_true, if_pos hclosing, List.head?_cons, Option.bind_some, List.tail_cons, hmatched',
          hopened, map_append_map, map_append_map, map_append_map]
      · have hwrite := length_writeAlias closing (letters stack.length) (letters drawn)
        simp only [List.length_append, hlength, hlength', write, hwrite]
      · rw [List.append_assoc, List.append_assoc, List.append_assoc (begin ++ in₂), List.append_assoc begin,
          List.append_cancel_left_eq, List.cons_append, alike_opening hopening, hinner.alike_append,
          alike_closing hclosing, ← heq, ← heq']
        constructor
        · intro hall
          obtain ⟨hin, hrest⟩ := List.append_inj hall hlength
          obtain ⟨hwrite, hout⟩ := List.append_inj hrest (length_writeAlias closing _ _)
          exact ⟨((writeAlias_inj (hasAlias_of_isClosing hclosing)).1 hwrite).symm, hin, hout⟩
        · rintro ⟨hletter, hin, hout⟩
          simp only [write, hletter, hin, hout]

/-- **The aliases of nested groups**: for nested tokens the conversion does not fail, and the text it returns is the one
    where each group is closed with its own alias if each group has the letter of the group whose number is the count
    of groups that are open where it begins, and only then. So it is for all letters that may be drawn if no group
    begins behind the end of one, and only then. -/
theorem convertNestedSubqueries_eq_matched_iff {n1qlTemplate : Text} (h : Nested (n1qlTemplate.splitOn ' ')) :
    (∀ letters, (convertNestedSubqueries letters n1qlTemplate).isSome ∧ (matched letters n1qlTemplate).isSome ∧
      (convertNestedSubqueries letters n1qlTemplate = matched letters n1qlTemplate
        ↔ Alike letters 0 0 (n1qlTemplate.splitOn ' '))) ∧
    ((∀ letters, (∀ k, (letters k).isUpper) →
        convertNestedSubqueries letters n1qlTemplate = matched letters n1qlTemplate)
      ↔ ∀ before token after, n1qlTemplate.splitOn ' ' = before ++ token :: after → isOpening token = true →
          closed before = 0) := by
  have hiff : ∀ letters, (convertNestedSubqueries letters n1qlTemplate).isSome ∧
      (matched letters n1qlTemplate).isSome ∧
      (convertNestedSubqueries letters n1qlTemplate = matched letters n1qlTemplate
        ↔ Alike letters 0 0 (n1qlTemplate.splitOn ' ')) := by
    intro letters
    obtain ⟨out, expected, hwrites⟩ := h.writes letters 0 [] le_rfl
    have hnested : convertNestedSubqueries letters n1qlTemplate = some out := by
      have hall := hwrites.nested []
      rw [List.append_nil, nestedLoop, Option.map_some, List.append_nil] at hall
      exact hall
    have hmatched : matched letters n1qlTemplate = some expected := by
      have hall := hwrites.matched []
      rw [List.append_nil, matchedLoop, Option.map_some, List.append_nil] at hall
      exact hall
    rw [hnested, hmatched, Option.some_inj]
    exact ⟨rfl, rfl, hwrites.eq_iff⟩
  refine ⟨hiff, ?_⟩
  constructor
  · intro hall before token after heq htoken
    -- the letter of this group is another than all others
    let letters (k : ℕ) : Char := if k = opened before then 'B' else 'A'
    have hupper : ∀ k, (letters k).isUpper := by
      intro k
      simp only [letters]
      split <;> rfl
    have hletter := ((hiff letters).2.2.1 (hall letters hupper)) before token after heq htoken
    have hle := h.closed_le ⟨token :: after, heq.symm⟩
    simp only [letters, Nat.zero_add, if_pos] at hletter
    split at hletter
    · omega
    · exact absurd hletter (by decide)
  · intro hnone letters _
    rw [(hiff letters).2.2]
    intro before token after heq htoken
    rw [hnone before token after heq htoken, Nat.sub_zero]

/-- One group in another, for two letters. -/
theorem convertNestedSubqueries_inner :
    Alike (fun k => if k = 0 then 'A' else 'B') 0 0
      ("TABLE_ALIAS.* TABLE_ALIAS.* FROM TABLE_ALIAS TABLE_ALIAS".toList.splitOn ' ') := by
  have hinner : Nested ["TABLE_ALIAS.*".toList, "FROM".toList, "TABLE_ALIAS".toList] :=
    .group (by decide) (.other (by decide) (by decide) .nil) (by decide) .nil
  have hnested : Nested ("TABLE_ALIAS.* TABLE_ALIAS.* FROM TABLE_ALIAS TABLE_ALIAS".toList.splitOn ' ') :=
    .group (by decide) hinner (by decide) .nil
  exact ((convertNestedSubqueries_eq_matched_iff hnested).1 _).2.2.1 (by decide)

/-- The second group of two is closed with the alias of the first one. -/
theorem convertNestedSubqueries_side_by_side : ¬ ∀ letters n1qlTemplate, Nested (n1qlTemplate.splitOn ' ') →
    convertNestedSubqueries letters n1qlTemplate = matched letters n1qlTemplate := by
  intro h
  have hsecond : Nested ["TABLE_ALIAS.*".toList, "TABLE_ALIAS".toList] := .group (by decide) .nil (by decide) .nil
  have hnested : Nested ("TABLE_ALIAS.* TABLE_ALIAS TABLE_ALIAS.* TABLE_ALIAS".toList.splitOn ' ') :=
    .group (by decide) .nil (by decide) hsecond
  have hsame := h (fun k => if k = 0 then 'A' else 'B') _ hnested
  revert hsame
  decide

end QueryHelper
