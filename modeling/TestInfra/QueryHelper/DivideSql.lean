import TestInfra.Lib.SplitText
import TestInfra.Lib.Words

set_option autoImplicit false

/-! # Queries taken apart into their clauses

`_divide_sql` (`lib/couchbase_helper/query_helper.py`) looks for the keywords of a query, each in the spellings it
knows, and cuts the clauses out at them. Which cuts a clause needs depends on the clauses behind it.

A query is assembled from its clauses with a blank on each side of a keyword. No spelling can begin in a clause and end
in a keyword or begin in a keyword and end in a clause, so what occurs in an assembled query are its own keywords, and a
cut at one of them finds the clauses before it and behind it. -/

open PyText SplitText

namespace QueryHelper

/-! ## The keywords -/

inductive Clause
  | selectText
  | fromText
  | whereText
  | groupBy
  | having
  | orderBy
deriving DecidableEq

/-- The spellings that `_divide_sql` looks for. -/
def hints : Clause → List Text
  | .selectText => ["SELECT".toList, "Select".toList, "select".toList]
  | .fromText => ["FROM".toList, "from".toList, "From".toList]
  | .whereText => ["WHERE".toList, "where".toList]
  | .groupBy => ["GROUP BY".toList, "group by".toList]
  | .having => ["HAVING".toList, "having".toList]
  | .orderBy => ["ORDER BY".toList, "order by".toList]

def subtable : Text := "SUBTABLE".toList

/-- `_find_string_type`. -/
def findStringType (n1qlQuery : Text) (hints : List Text) : Option Text := hints.find? fun hint => hint <:+: n1qlQuery

/-! ## The division -/

/-- `text.split(sep)`; without a separator, at white space. -/
def splitBy : Option Text → Text → List Text
  | some sep, text => split sep text
  | none, text => words text

/-- `text.split(sep)[0]`. -/
def before (sep : Option Text) (text : Text) : Option Text := (splitBy sep text)[0]?

/-- `text.split(sep)[1]`. -/
def behind (sep : Option Text) (text : Text) : Option Text := (splitBy sep text)[1]?

structure SqlMap where
  fromFields : Text
  whereCondition : Option Text
  selectFrom : Text
  groupBy : Option Text
  orderBy : Option Text
  having : Option Text
deriving DecidableEq

def fromFieldText (found : Clause → Option Text) (sql : Text) : Option Text :=
  if (found .whereText).isSome then
    (behind (found .fromText) sql).bind fun text => before (found .whereText) text
  else if subtable <:+: sql then
    (splitBy (found .fromText) sql)[2]?
  else
    behind (found .fromText) sql

def selectFromText (found : Clause → Option Text) (sql : Text) : Option Text :=
  if subtable <:+: sql then do
    let first ← (split [' '] sql)[1]?
    let second ← (split [' '] sql)[2]?
    some (first ++ ' ' :: second)
  else
    (behind (found .selectText) sql).bind fun text => (before (found .fromText) text).map strip

/-- The text behind the keyword, if there is the keyword: what is `none` inside stays `None`. -/
def whereConditionText (found : Clause → Option Text) (sql : Text) : Option (Option Text) :=
  if (found .whereText).isSome then
    if subtable <:+: sql then do
      let text ← behind (found .fromText) sql
      let text ← behind (found .whereText) text
      let text ← before (found .orderBy) text
      some (some text)
    else
      (behind (found .whereText) sql).map some
  else
    some none

/-- `if group_by:`. The texts that are `None` have no `split`. -/
def divideGroup (found : Clause → Option Text) (sql : Text) (map : SqlMap) : Option SqlMap :=
  if (found .groupBy).isSome then do
    let groupByText ← behind (found .groupBy) sql
    let whereText ← map.whereCondition
    let whereText ← before (found .groupBy) whereText
    if (found .having).isSome then
      let havingText ← behind (found .having) groupByText
      let groupByText ← before (found .having) groupByText
      some { map with whereCondition := some whereText, groupBy := some groupByText, having := some havingText }
    else
      some { map with whereCondition := some whereText, groupBy := some groupByText }
  else
    some map

/-- The text that is cut again, if it is to be. -/
def cutText (sep : Option Text) (cut : Bool) (text : Option Text) : Option (Option Text) :=
  if cut then text.bind fun text => (before sep text).map some else some text

/-- `if order_by:`. -/
def divideOrder (found : Clause → Option Text) (sql : Text) (map : SqlMap) : Option SqlMap :=
  if (found .orderBy).isSome then do
    let orderByText ← behind (found .orderBy) sql
    let groupByText ← cutText (found .orderBy) (map.groupBy.any (· ≠ []) && (found .having).isNone) map.groupBy
    let havingText ← cutText (found .orderBy) (found .having).isSome map.having
    let whereText ← cutText (found .orderBy) true map.whereCondition
    some { map with
      whereCondition := whereText, groupBy := groupByText, having := havingText, orderBy := some orderByText }
  else
    some map

/-- `_divide_sql`, without joins; nothing where it raises. -/
def divideSql (sql : Text) : Option SqlMap := do
  let sql := (sql.filter fun c => c ≠ ';').filter fun c => c ≠ '\n'
  let found := fun clause => findStringType sql (hints clause)
  let fromFields ← fromFieldText found sql
  let selectFrom ← selectFromText found sql
  let whereCondition ← whereConditionText found sql
  let map := ⟨fromFields, whereCondition, selectFrom, none, none, none⟩
  let map ← divideGroup found sql map
  divideOrder found sql map

/-! ## Assembled queries -/

/-- How the keywords are spelled. -/
structure Spelling where
  word : Clause → Text
  mem : ∀ clause, word clause ∈ hints clause

/-- The clauses of a query, each behind its keyword. -/
def tail (k : Spelling) (clauses : List (Clause × Text)) : Text :=
  clauses.flatMap fun clause => ' ' :: k.word clause.1 ++ ' ' :: clause.2

def optional (clause : Clause) (text : Option Text) : List (Clause × Text) := text.toList.map (Prod.mk clause)

/-- What may follow the condition. -/
def SqlMap.rest (map : SqlMap) : List (Clause × Text) :=
  optional .groupBy map.groupBy ++ (optional .having map.having ++ optional .orderBy map.orderBy)

/-- The clauses behind the first one, in the order of a query. -/
def SqlMap.clauses (map : SqlMap) : List (Clause × Text) :=
  (.fromText, map.fromFields) :: (optional .whereText map.whereCondition ++ map.rest)

/-- The query with these clauses, behind other text. -/
def assembleBehind (lead : Text) (k : Spelling) (map : SqlMap) : Text :=
  lead ++ k.word .selectText ++ ' ' :: map.selectFrom ++ tail k map.clauses

def assemble (k : Spelling) (map : SqlMap) : Text := assembleBehind [] k map

def keywords : List Text := [Clause.selectText, .fromText, .whereText, .groupBy, .having, .orderBy].flatMap hints

def lookedFor : List Text := subtable :: keywords

/-- A text that `_divide_sql` finds nothing in. -/
structure Plain (text : Text) : Prop where
  free : ∀ word ∈ lookedFor, Free word text
  kept : ∀ c ∈ text, c ≠ ';' ∧ c ≠ '\n'

/-! ## Where keywords can lie -/

theorem hints_subset (clause : Clause) : ∀ word ∈ hints clause, word ∈ keywords := by
  cases clause <;> decide

theorem Spelling.mem_keywords (k : Spelling) (clause : Clause) : k.word clause ∈ keywords :=
  hints_subset clause _ (k.mem clause)

theorem keywords_subset {word : Text} (h : word ∈ keywords) : word ∈ lookedFor := List.mem_cons_of_mem _ h

theorem clause_eq {a b : Clause} : ∀ word ∈ hints a, word ∈ hints b → a = b := by
  cases a <;> cases b <;> decide

theorem free_of_ne : ∀ word ∈ lookedFor, ∀ keyword ∈ keywords, word ≠ keyword → Free word keyword := by
  decide +kernel

/-- What is behind a blank of a word is not how a keyword begins. -/
theorem not_begins : ∀ word ∈ lookedFor, ∀ keyword ∈ keywords, ∀ v ∈ word.tails, ' ' :: v ∈ word.tails →
    v ≠ [] ∧ v.head? ≠ keyword.head? := by
  decide +kernel

/-- What is before a blank of a word is not how a keyword ends. -/
theorem not_ends : ∀ word ∈ lookedFor, ∀ keyword ∈ keywords, ∀ u ∈ word.inits, u ++ [' '] ∈ word.inits →
    u ≠ [] ∧ u.getLast? ≠ keyword.getLast? := by
  decide +kernel

theorem free_dropLast : ∀ keyword ∈ keywords, keyword ≠ [] ∧ Free keyword keyword.dropLast := by
  decide +kernel

section Places

variable {word keyword a b : Text}

theorem not_crosses_before (hword : word ∈ lookedFor) (hkeyword : keyword ∈ keywords) :
    ¬ Crosses word ' ' a (keyword ++ b) := by
  rintro ⟨u, v, rfl, -, hv⟩
  obtain ⟨hne, hhead⟩ := not_begins _ hword keyword hkeyword v ((List.mem_tails ..).2 ⟨u ++ [' '], by simp⟩)
    ((List.mem_tails ..).2 (List.suffix_append ..))
  obtain ⟨c, v, rfl⟩ := List.exists_cons_of_ne_nil hne
  obtain ⟨d, rest, rfl⟩ := List.exists_cons_of_ne_nil (free_dropLast keyword hkeyword).1
  obtain ⟨after, hafter⟩ := hv
  rw [List.cons_append, List.cons_append, List.cons.injEq] at hafter
  exact hhead (congrArg some hafter.1)

theorem not_crosses_behind (hword : word ∈ lookedFor) (hkeyword : keyword ∈ keywords) :
    ¬ Crosses word ' ' (a ++ keyword) b := by
  rintro ⟨u, v, rfl, hu, -⟩
  obtain ⟨hne, hlast⟩ := not_ends _ hword keyword hkeyword u ((List.mem_inits ..).2 (List.prefix_append ..))
    ((List.mem_inits ..).2 ⟨v, by simp⟩)
  obtain ⟨front, hfront⟩ := hu
  have hlasts := congrArg List.getLast? hfront
  rw [List.getLast?_append_of_ne_nil _ hne, List.getLast?_append_of_ne_nil _ (free_dropLast keyword hkeyword).1]
    at hlasts
  exact hlast hlasts

theorem not_crosses_nil (hword : word ∈ lookedFor) : ¬ Crosses word ' ' [] b ∧ ¬ Crosses word ' ' a [] := by
  have hkeyword : "FROM".toList ∈ keywords := by decide
  constructor
  · rintro ⟨u, v, rfl, hu, -⟩
    obtain ⟨hne, -⟩ := not_ends _ hword _ hkeyword u ((List.mem_inits ..).2 (List.prefix_append ..))
      ((List.mem_inits ..).2 ⟨v, by simp⟩)
    exact hne (List.suffix_nil.1 hu)
  · rintro ⟨u, v, rfl, -, hv⟩
    obtain ⟨hne, -⟩ := not_begins _ hword _ hkeyword v ((List.mem_tails ..).2 ⟨u ++ [' '], by simp⟩)
      ((List.mem_tails ..).2 (List.suffix_append ..))
    exact hne (List.prefix_nil.1 hv)

/-- What occurs around a keyword. -/
theorem free_keyword_iff (hword : word ∈ lookedFor) (hkeyword : keyword ∈ keywords) :
    Free word (a ++ ' ' :: (keyword ++ ' ' :: b)) ↔ Free word a ∧ Free word keyword ∧ Free word b := by
  have hbehind := not_crosses_behind (a := []) (b := b) hword hkeyword
  rw [List.nil_append] at hbehind
  rw [free_append_cons_iff, free_append_cons_iff]
  have hbefore := not_crosses_before (a := a) (b := ' ' :: b) hword hkeyword
  tauto

theorem free_blank_cons (hword : word ∈ lookedFor) (h : Free word a) : Free word (' ' :: a) :=
  free_append_cons_iff (a := []).2
    ⟨(fun hnil => h (hnil.trans (List.nil_infix))), h, (not_crosses_nil (a := []) hword).1⟩

theorem free_concat_blank (hword : word ∈ lookedFor) (h : Free word a) : Free word (a ++ [' ']) :=
  free_append_cons_iff.2 ⟨h, (fun hnil => h (hnil.trans (List.nil_infix))), (not_crosses_nil (b := []) hword).2⟩

/-- The cut at a keyword. -/
theorem split_keyword (hkeyword : keyword ∈ keywords) (ha : Free keyword a) (hb : Free keyword b) :
    split keyword (a ++ ' ' :: (keyword ++ ' ' :: b)) = [a ++ [' '], ' ' :: b] := by
  obtain ⟨hne, hdrop⟩ := free_dropLast keyword hkeyword
  have hword := keywords_subset hkeyword
  have hfirst : Free keyword (a ++ [' '] ++ keyword.dropLast) := by
    rw [List.append_assoc, List.singleton_append, free_append_cons_iff]
    refine ⟨ha, hdrop, ?_⟩
    rintro ⟨u, v, heq, hu, hv⟩
    exact not_crosses_before (b := []) hword hkeyword
      ⟨u, v, heq, hu, by rw [List.append_nil]; exact hv.trans (List.dropLast_prefix _)⟩
  have htext : a ++ ' ' :: (keyword ++ ' ' :: b) = a ++ [' '] ++ keyword ++ ' ' :: b := by simp
  rw [htext, split_append hne hfirst, split_of_free (free_blank_cons hword hb)]

end Places

/-! ## What occurs in an assembled query -/

section Assembled

variable {word lead : Text} {k : Spelling} {clauses : List (Clause × Text)} {map : SqlMap}

theorem tail_nil : tail k [] = [] := rfl

theorem tail_cons (clause : Clause × Text) :
    tail k (clause :: clauses) = ' ' :: (k.word clause.1 ++ ' ' :: (clause.2 ++ tail k clauses)) := by
  simp [tail]

theorem free_tail_iff (hword : word ∈ lookedFor) {a : Text} :
    Free word (a ++ tail k clauses) ↔
      Free word a ∧ ∀ clause ∈ clauses, Free word (k.word clause.1) ∧ Free word clause.2 := by
  induction clauses generalizing a with
  | nil => simp [tail]
  | cons clause clauses ih =>
      rw [tail_cons, free_keyword_iff hword (k.mem_keywords _), ih, List.forall_mem_cons]
      tauto

/-- What may stand before a query: nothing, or text and a blank. -/
def Opening (lead : Text) : Prop := lead = [] ∨ ∃ text, lead = text ++ [' '] ∧ Plain text

theorem free_opening_iff (hword : word ∈ lookedFor) (hlead : Opening lead) {keyword b : Text}
    (hkeyword : keyword ∈ keywords) :
    Free word (lead ++ keyword ++ ' ' :: b) ↔ Free word keyword ∧ Free word b := by
  rcases hlead with rfl | ⟨text, rfl, htext⟩
  · have hbehind := not_crosses_behind (a := []) (b := b) hword hkeyword
    rw [List.nil_append] at hbehind ⊢
    rw [free_append_cons_iff]
    tauto
  · have heq : text ++ [' '] ++ keyword ++ ' ' :: b = text ++ ' ' :: (keyword ++ ' ' :: b) := by simp
    have hfree := htext.free word hword
    rw [heq, free_keyword_iff hword hkeyword]
    tauto

/-- The spellings of another clause do not occur in a keyword. -/
theorem Spelling.free_word (k : Spelling) {a b : Clause} (h : a ≠ b) {word : Text} (hword : word ∈ hints a) :
    Free word (k.word b) := by
  refine free_of_ne word (keywords_subset (hints_subset a word hword)) _ (k.mem_keywords b) ?_
  rintro rfl
  exact h (clause_eq _ hword (k.mem b))

/-- The texts of the clauses are plain. -/
structure SqlMap.Plain (map : SqlMap) : Prop where
  selectFrom : QueryHelper.Plain map.selectFrom
  clauses : ∀ clause ∈ map.clauses, QueryHelper.Plain clause.2

theorem free_assembled_iff (hword : word ∈ lookedFor) (hlead : Opening lead) :
    Free word (assembleBehind lead k map) ↔ (Free word (k.word .selectText) ∧ Free word map.selectFrom) ∧
      ∀ clause ∈ map.clauses, Free word (k.word clause.1) ∧ Free word clause.2 := by
  rw [assembleBehind, free_tail_iff hword, free_opening_iff hword hlead (k.mem_keywords _)]

/-- A keyword is found if and only if the query has its clause, and then in the query's spelling. -/
theorem findStringType_assembled (hlead : Opening lead) (hmap : map.Plain) (clause : Clause) :
    findStringType (assembleBehind lead k map) (hints clause) =
      if clause = .selectText ∨ clause ∈ map.clauses.map Prod.fst then some (k.word clause) else none := by
  have hplain (word : Text) (hword : word ∈ lookedFor) : Free word map.selectFrom ∧ ∀ c ∈ map.clauses, Free word c.2 :=
    ⟨hmap.selectFrom.free word hword, fun c hc => (hmap.clauses c hc).free word hword⟩
  have hocc (word : Text) (hword : word ∈ hints clause) (hin : word <:+: assembleBehind lead k map) :
      (clause = .selectText ∨ clause ∈ map.clauses.map Prod.fst) ∧ word = k.word clause := by
    have hlooked := keywords_subset (hints_subset clause word hword)
    obtain ⟨hselect, hclauses⟩ := hplain word hlooked
    have hused : ∃ used, (used = .selectText ∨ used ∈ map.clauses.map Prod.fst) ∧ ¬ Free word (k.word used) := by
      by_contra! hnone
      refine (free_assembled_iff hlooked hlead).2 ⟨⟨hnone _ (.inl rfl), hselect⟩, fun c hc => ?_⟩ hin
      exact ⟨hnone c.1 (.inr (List.mem_map_of_mem hc)), hclauses c hc⟩
    obtain ⟨used, hused, hword'⟩ := hused
    obtain rfl : clause = used := by
      by_contra hne
      exact hword' (k.free_word hne hword)
    refine ⟨hused, ?_⟩
    by_contra hne
    exact hword' (free_of_ne word hlooked _ (k.mem_keywords clause) hne)
  unfold findStringType
  split
  · next hused =>
      have hmem := k.mem clause
      have hin : k.word clause <:+: assembleBehind lead k map := by
        by_contra hfree
        have hself : ¬ Free (k.word clause) (k.word clause) := fun h => h (List.infix_refl _)
        obtain ⟨⟨hselect, -⟩, hclauses⟩ :=
          (free_assembled_iff (keywords_subset (k.mem_keywords clause)) hlead).1 hfree
        rcases hused with rfl | hused
        · exact hself hselect
        · obtain ⟨c, hc, rfl⟩ := List.mem_map.1 hused
          exact hself (hclauses c hc).1
      cases hfind : (hints clause).find? fun hint => decide (hint <:+: assembleBehind lead k map) with
      | none => exact absurd hin (by simpa using List.find?_eq_none.1 hfind _ hmem)
      | some word =>
          rw [(hocc word (List.mem_of_find?_eq_some hfind) (by simpa using List.find?_some hfind)).2]
  · next hused =>
      refine List.find?_eq_none.2 fun word hword hin => hused (hocc word hword (by simpa using hin)).1

/-- The cut at the keyword of a clause. -/
theorem split_tail {a text : Text} {clause : Clause} {pre post : List (Clause × Text)}
    (ha : Free (k.word clause) a) (hpre : ∀ c ∈ pre, c.1 ≠ clause) (hpost : ∀ c ∈ post, c.1 ≠ clause)
    (htexts : ∀ c ∈ pre ++ (clause, text) :: post, Plain c.2) :
    split (k.word clause) (a ++ tail k (pre ++ (clause, text) :: post)) =
      [a ++ tail k pre ++ [' '], ' ' :: text ++ tail k post] := by
  have hkeyword := k.mem_keywords clause
  have hlooked := keywords_subset hkeyword
  have hfree (c : Clause × Text) (hc : c ∈ pre ++ (clause, text) :: post) := (htexts c hc).free _ hlooked
  have hother {c : Clause} (hc : c ≠ clause) := k.free_word hc.symm (k.mem clause)
  have hbefore : Free (k.word clause) (a ++ tail k pre) :=
    (free_tail_iff hlooked).2 ⟨ha, fun c hc => ⟨hother (hpre c hc), hfree c (by simp [hc])⟩⟩
  have hbehind : Free (k.word clause) (text ++ tail k post) :=
    (free_tail_iff hlooked).2
      ⟨hfree (clause, text) (by simp), fun c hc => ⟨hother (hpost c hc), hfree c (by simp [hc])⟩⟩
  have heq : a ++ tail k (pre ++ (clause, text) :: post) =
      a ++ tail k pre ++ ' ' :: (k.word clause ++ ' ' :: (text ++ tail k post)) := by simp [tail]
  rw [heq, split_keyword hkeyword hbefore hbehind, List.cons_append]

end Assembled

end QueryHelper
