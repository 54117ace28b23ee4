import TestInfra.QueryHelper.Divided

set_option autoImplicit false

/-! # The words of a query

A rewritten query is compared with the query by its words: they say which clauses there are and in which order, but not
how they are spaced.

`_divide_sql` first puts the query on one line and removes its semicolons. It does with a query what it does with the
query on one line, but the words may be others: nothing is left between two words where there was the end of a line. -/

open PyText SplitText

namespace QueryHelper

/-! ## Words of clauses -/

section Words

variable {lead : Text} {k k' : Spelling} {clauses : List (Clause × Text)} {map : SqlMap}

/-- The words of clauses. -/
def clauseWords (k : Spelling) (clauses : List (Clause × Text)) : List Text :=
  clauses.flatMap fun clause => words (k.word clause.1) ++ words clause.2

theorem clauseWords_nil : clauseWords k [] = [] := rfl

theorem clauseWords_append (a b : List (Clause × Text)) :
    clauseWords k (a ++ b) = clauseWords k a ++ clauseWords k b := List.flatMap_append

theorem clauseWords_cons (clause : Clause × Text) :
    clauseWords k (clause :: clauses) = words (k.word clause.1) ++ words clause.2 ++ clauseWords k clauses := by
  rw [clauseWords, List.flatMap_cons]
  rfl

theorem words_tail (a : Text) : words (a ++ tail k clauses) = words a ++ clauseWords k clauses := by
  induction clauses generalizing a with
  | nil => simp [tail, clauseWords]
  | cons clause clauses ih =>
      rw [tail_cons, words_append_cons rfl, words_append_cons rfl, ih, clauseWords_cons,
        List.append_assoc (words (k.word _))]

theorem words_assembled : words (assembleBehind lead k map) =
    words (lead ++ k.word .selectText) ++ words map.selectFrom ++ clauseWords k map.clauses := by
  rw [assembleBehind, words_tail, words_append_cons rfl]

/-- The spellings of a keyword have words of the same lengths. -/
theorem lengths_words_hints (clause : Clause) :
    ∀ a ∈ hints clause, ∀ b ∈ hints clause, (words a).map List.length = (words b).map List.length := by
  cases clause <;> decide +kernel

/-- So have queries in other spellings. -/
theorem lengths_clauseWords (k k' : Spelling) (clauses : List (Clause × Text)) :
    (clauseWords k clauses).map List.length = (clauseWords k' clauses).map List.length := by
  induction clauses with
  | nil => rfl
  | cons clause clauses ih =>
      have hhints := lengths_words_hints clause.1 _ (k.mem _) _ (k'.mem _)
      rw [clauseWords_cons, clauseWords_cons]
      simp only [List.map_append, hhints, ih]

theorem lengths_words_lead (hlead : Opening lead) (k k' : Spelling) :
    (words (lead ++ k.word .selectText)).map List.length = (words (lead ++ k'.word .selectText)).map List.length := by
  have hhints := lengths_words_hints .selectText _ (k.mem _) _ (k'.mem _)
  rcases hlead with rfl | ⟨text, rfl, -⟩
  · exact hhints
  · simp only [List.append_assoc, List.singleton_append]
    rw [words_append_cons rfl, words_append_cons rfl, List.map_append, List.map_append, hhints]

theorem length_eq_of_lengths {a b : List Text} (h : a.map List.length = b.map List.length) : a.length = b.length := by
  simpa using congrArg List.length h

/-- How large the words of a query are. -/
theorem size_words_assembled (hlead : Opening lead) (fromFields : Text) :
    size (words (assembleBehind lead k { map with fromFields := fromFields })) =
      size (words (lead ++ capitals.word .selectText)) + size (words map.selectFrom) +
        size (words (capitals.word .fromText)) + size (words fromFields) +
        size (clauseWords capitals (optional .whereText map.whereCondition ++ map.rest)) := by
  have hrest : SqlMap.rest { map with fromFields := fromFields } = map.rest := rfl
  have hfrom := size_congr (lengths_words_hints .fromText _ (k.mem _) _ (capitals.mem _))
  have hfirst := size_congr (lengths_words_lead hlead k capitals)
  have hothers := size_congr (lengths_clauseWords k capitals (optional .whereText map.whereCondition ++ map.rest))
  rw [words_assembled, SqlMap.clauses, clauseWords_cons]
  simp only [size_append, hfrom, hfirst, hrest, hothers]
  omega

end Words

/-! ## One line -/

/-- The text as it is divided. -/
def oneLine (text : Text) : Text := (text.filter fun c => c ≠ ';').filter fun c => c ≠ '\n'

theorem oneLine_eq (text : Text) : oneLine text = text.filter fun c => c ≠ '\n' && c ≠ ';' := by
  rw [oneLine, List.filter_filter]

theorem oneLine_nil : oneLine [] = [] := rfl

theorem oneLine_append (a b : Text) : oneLine (a ++ b) = oneLine a ++ oneLine b := by
  simp only [oneLine_eq, List.filter_append]

theorem oneLine_eq_self {text : Text} (h : ∀ c ∈ text, c ≠ ';' ∧ c ≠ '\n') : oneLine text = text := by
  rw [oneLine_eq, List.filter_eq_self]
  intro c hc
  simpa using (h c hc).symm

theorem kept_oneLine (text : Text) : ∀ c ∈ oneLine text, c ≠ ';' ∧ c ≠ '\n' := by
  intro c hc
  rw [oneLine_eq, List.mem_filter] at hc
  have hkept : c ≠ '\n' ∧ c ≠ ';' := by simpa using hc.2
  exact hkept.symm

theorem oneLine_oneLine (text : Text) : oneLine (oneLine text) = oneLine text := oneLine_eq_self (kept_oneLine text)

/-- Only what is on one line is divided. -/
theorem divideSql_oneLine (sql : Text) : divideSql (oneLine sql) = divideSql sql := by
  have hline : ((oneLine sql).filter fun c => c ≠ ';').filter (fun c => c ≠ '\n') = oneLine sql := oneLine_oneLine sql
  unfold divideSql
  rw [hline]
  rfl

theorem divideSql_congr {a b : Text} (h : oneLine a = oneLine b) : divideSql a = divideSql b := by
  rw [← divideSql_oneLine a, h, divideSql_oneLine]

theorem oneLine_cons {c : Char} (hc : c ≠ ';' ∧ c ≠ '\n') (text : Text) : oneLine (c :: text) = c :: oneLine text := by
  rw [oneLine_eq, oneLine_eq, List.filter_cons_of_pos (by simpa using hc.symm)]

/-- The clauses on one line. -/
def clausesOnLine (clauses : List (Clause × Text)) : List (Clause × Text) :=
  clauses.map fun clause => (clause.1, oneLine clause.2)

/-- The texts of a query on one line. -/
def SqlMap.oneLine (map : SqlMap) : SqlMap where
  fromFields := QueryHelper.oneLine map.fromFields
  whereCondition := map.whereCondition.map QueryHelper.oneLine
  selectFrom := QueryHelper.oneLine map.selectFrom
  groupBy := map.groupBy.map QueryHelper.oneLine
  orderBy := map.orderBy.map QueryHelper.oneLine
  having := map.having.map QueryHelper.oneLine

section Lines

variable {lead : Text} {k : Spelling} {clauses : List (Clause × Text)} {map : SqlMap}

theorem optional_oneLine (clause : Clause) (text : Option Text) :
    optional clause (text.map oneLine) = clausesOnLine (optional clause text) := by
  cases text <;> rfl

theorem rest_onLine : optional .whereText map.oneLine.whereCondition ++ map.oneLine.rest =
    clausesOnLine (optional .whereText map.whereCondition ++ map.rest) := by
  simp [SqlMap.rest, SqlMap.oneLine, optional_oneLine, clausesOnLine]

theorem clauses_oneLine : map.oneLine.clauses = clausesOnLine map.clauses :=
  congrArg ((Clause.fromText, oneLine map.fromFields) :: ·) rest_onLine

theorem oneLine_word (k : Spelling) (clause : Clause) : oneLine (k.word clause) = k.word clause :=
  oneLine_eq_self (kept_keywords _ (k.mem_keywords clause))

theorem oneLine_tail : oneLine (tail k clauses) = tail k (clausesOnLine clauses) := by
  have hblank : ' ' ≠ ';' ∧ ' ' ≠ '\n' := by decide
  induction clauses with
  | nil => rfl
  | cons clause clauses ih =>
      have hclauses : clausesOnLine (clause :: clauses) = (clause.1, oneLine clause.2) :: clausesOnLine clauses := rfl
      rw [hclauses, tail_cons, tail_cons, oneLine_cons hblank, oneLine_append, oneLine_cons hblank, oneLine_append,
        oneLine_word, ih]

theorem oneLine_assembled (lead : Text) (k : Spelling) (map : SqlMap) :
    oneLine (assembleBehind lead k map) = assembleBehind (oneLine lead) k map.oneLine := by
  have hblank : ' ' ≠ ';' ∧ ' ' ≠ '\n' := by decide
  rw [assembleBehind, oneLine_append, oneLine_append, oneLine_append, oneLine_cons hblank, oneLine_word, oneLine_tail,
    assembleBehind, clauses_oneLine]
  rfl

theorem divideSql_assembled (k : Spelling) (map : SqlMap) :
    divideSql (assemble k map.oneLine) = divideSql (assemble k map) := by
  have hline := oneLine_assembled [] k map
  rw [← divideSql_oneLine (assemble k map), assemble, assemble, hline]
  rfl

/-- A text in which no keyword is found, on one line. -/
def KeywordFree (text : Text) : Prop := ∀ word ∈ lookedFor, Free word (oneLine text)

theorem KeywordFree.plain {text : Text} (h : KeywordFree text) : Plain (oneLine text) := ⟨h, kept_oneLine text⟩

/-- The texts of the clauses are free of keywords. -/
structure SqlMap.KeywordFree (map : SqlMap) : Prop where
  selectFrom : QueryHelper.KeywordFree map.selectFrom
  clauses : ∀ clause ∈ map.clauses, QueryHelper.KeywordFree clause.2

theorem SqlMap.KeywordFree.plain (h : map.KeywordFree) : map.oneLine.Plain where
  selectFrom := h.selectFrom.plain
  clauses := by
    intro clause hclause
    rw [clauses_oneLine] at hclause
    obtain ⟨text, htext, rfl⟩ := List.mem_map.1 hclause
    exact (h.clauses text htext).plain

/-- On one line the texts have the same words: they have no semicolons, and there is no end of a line but at other
    white space or at an end of a text. -/
structure SqlMap.SameWords (map : SqlMap) : Prop where
  selectFrom : words (QueryHelper.oneLine map.selectFrom) = words map.selectFrom
  clauses : ∀ clause ∈ map.clauses, words (QueryHelper.oneLine clause.2) = words clause.2

theorem clauseWords_onLine (h : ∀ clause ∈ clauses, words (oneLine clause.2) = words clause.2) :
    clauseWords k (clausesOnLine clauses) = clauseWords k clauses := by
  rw [clauseWords, clausesOnLine, List.flatMap_map]
  exact List.flatMap_congr fun clause hclause => by rw [h clause hclause]

theorem size_words_oneLine (text : Text) : size (words (oneLine text)) ≤ size (words text) := by
  rw [oneLine_eq]
  exact size_words_filter _ text

theorem words_oneLine {text : Text} (h : size (words text) ≤ size (words (oneLine text))) :
    words (oneLine text) = words text := by
  rw [oneLine_eq] at h ⊢
  exact words_filter _ text h

theorem size_clauseWords_onLine (clauses : List (Clause × Text)) :
    size (clauseWords k (clausesOnLine clauses)) ≤ size (clauseWords k clauses) ∧
      (size (clauseWords k clauses) ≤ size (clauseWords k (clausesOnLine clauses)) →
        ∀ clause ∈ clauses, words (oneLine clause.2) = words clause.2) := by
  induction clauses with
  | nil => simp [clausesOnLine]
  | cons clause clauses ih =>
      obtain ⟨hle, hsame⟩ := ih
      have hclauses : clausesOnLine (clause :: clauses) = (clause.1, oneLine clause.2) :: clausesOnLine clauses := rfl
      have htext := size_words_oneLine clause.2
      rw [hclauses, clauseWords_cons, clauseWords_cons]
      simp only [size_append]
      refine ⟨by omega, fun h => List.forall_mem_cons.2 ⟨words_oneLine (by omega), hsame (by omega)⟩⟩

end Lines

end QueryHelper
