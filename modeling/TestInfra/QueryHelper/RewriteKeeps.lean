import TestInfra.QueryHelper.Rewrite

set_option autoImplicit false

/-! # What the rewriters keep

A rewriter keeps a query if the words of its result are those of the query and of what was to be inserted, and if the
result is divided into the texts that the query is divided into. A limit is behind the last clause and is found in its
text. -/

open PyText SplitText

namespace QueryHelper

/-- The texts of the clauses but `FROM`. -/
def SqlMap.texts (map : SqlMap) : SqlMap := { map.stripped with fromFields := [] }

/-- The query is the same but for the hint: the words of both are those of a query with the hint behind the texts of
    `FROM`, and the other clauses are found as before. -/
def KeepsHint (lead hint : Text) (k : Spelling) (map : SqlMap) (result : Option Text) : Prop :=
  ∃ newSql before after, result = some newSql ∧
    (∃ k', words newSql = words (assembleBehind lead k' { map with fromFields := map.fromFields ++ ' ' :: hint })) ∧
    divideSql (assemble k map) = some before ∧ divideSql newSql = some after ∧ after.texts = before.texts

/-- The query is the same but for the limit: the words are those of the query and then those of the limit, and the
    clauses are found as before, the last one with the limit behind its text. -/
def KeepsLimit (limit : Text) (k : Spelling) (map : SqlMap) (result : Option Text) : Prop :=
  ∃ newSql before after, result = some newSql ∧
    (∃ k', words newSql = words (assemble k' map ++ " limit ".toList ++ limit)) ∧
    divideSql (assemble k map) = some before ∧ divideSql newSql = some after ∧
    after.stripped = (before.behindLast ("  limit ".toList ++ oneLine limit)).stripped

section Kept

variable {lead hint w : Text} {k k' : Spelling} {map found : SqlMap}

/-! ## The words that are written -/

/-- The keywords of `HAVING` and `ORDER BY` are told apart by their first words. -/
theorem head_words_ne : ∀ a ∈ hints .having, ∀ b ∈ hints .orderBy, ∀ x y : List Text,
    words a ++ x ≠ words b ++ y := by
  have hheads : ∀ a ∈ hints .having, ∀ b ∈ hints .orderBy,
      words a ≠ [] ∧ words b ≠ [] ∧ (words a).head? ≠ (words b).head? := by decide +kernel
  intro a ha b hb x y heq
  obtain ⟨hne, hne', hhead⟩ := hheads a ha b hb
  have hheads := congrArg List.head? heq
  rw [List.head?_append_of_ne_nil _ hne, List.head?_append_of_ne_nil _ hne'] at hheads
  exact hhead hheads

/-- With `ORDER BY` written before `HAVING`, the words are others. -/
theorem words_swapped (hlead : Opening lead) (hmap : map.Plain) (hwhere : map.whereCondition = some w)
    (hfound : divideSql (assemble k map) = some found) (hselect : found.selectFrom ≠ []) {g h o : Text}
    (hgroup : map.groupBy = some g) (hhaving : map.having = some h) (horder : map.orderBy = some o)
    {fromFields fromFields' : Text} (hfrom : words fromFields = words fromFields') :
    words (lead ++ "SELECT ".toList ++ part [] (some found.selectFrom) " FROM ".toList ++ fromFields ++
      tail capitals (written found)) ≠ words (assembleBehind lead k' { map with fromFields := fromFields' }) := by
  obtain ⟨found', hfound', hholds⟩ := divideSql_groupBy (k := k) (.inl rfl) hmap hwhere hgroup
  obtain rfl : found = found' := Option.some.inj (hfound.symm.trans hfound')
  intro hwords
  rw [written_eq hselect, words_tail, words_append_cons rfl, words_assembled] at hwords
  simp only [written, SqlMap.clauses, SqlMap.rest, clauseWords_cons, clauseWords_append,
    clauseWords_optional hholds.whereCondition, clauseWords_optional hholds.groupBy,
    clauseWords_optional hholds.orderBy, clauseWords_optional hholds.having, hholds.selectFrom, words_strip, hfrom]
    at hwords
  -- up to the condition and its groups, there are as many words on both sides
  have hlead' := length_eq_of_lengths (lengths_words_lead hlead capitals k')
  have hkeyword := length_eq_of_lengths (lengths_words_hints .fromText _ (capitals.mem _) _ (k'.mem _))
  have hcondition := length_eq_of_lengths (lengths_clauseWords capitals k' (optional .whereText map.whereCondition))
  have hgroups := length_eq_of_lengths (lengths_clauseWords capitals k' (optional .groupBy map.groupBy))
  simp only [← List.append_assoc] at hwords
  rw [List.append_assoc _ _ (clauseWords capitals (optional .having map.having)),
    List.append_assoc _ _ (clauseWords k' (optional .orderBy map.orderBy))] at hwords
  have htails := (List.append_inj hwords (by simp only [List.length_append, hlead', hkeyword, hcondition, hgroups])).2
  rw [hhaving, horder] at htails
  refine head_words_ne _ (k'.mem .having) _ (capitals.mem .orderBy) (words h ++ clauseWords k' [(.orderBy, o)])
    (words o ++ clauseWords capitals [(.having, h)]) ?_
  simpa [clauseWords, optional] using htails.symm

/-- How large the words are that are written; without a text for `SELECT`, the word `FROM` is left out. -/
theorem size_words_written (lead : Text) (selectFrom fromFields : Text) (clauses : List (Clause × Text)) :
    size (words (lead ++ "SELECT ".toList ++ part [] (some selectFrom) " FROM ".toList ++ fromFields ++
      tail capitals clauses)) + (if selectFrom = [] then size (words (capitals.word .fromText)) else 0) =
      size (words (lead ++ capitals.word .selectText)) + size (words selectFrom) +
        size (words (capitals.word .fromText)) + size (words fromFields) + size (clauseWords capitals clauses) := by
  split
  · next hblank =>
      have heq : lead ++ "SELECT ".toList ++ part [] (some selectFrom) " FROM ".toList ++ fromFields ++
          tail capitals clauses = lead ++ capitals.word .selectText ++ ' ' :: fromFields ++ tail capitals clauses := by
        simp [part, hblank, capitals]
      rw [heq, words_tail, words_append_cons rfl, hblank, words_nil]
      simp only [size_append, size_nil]
      omega
  · next hselect =>
      rw [written_eq hselect, words_tail, words_append_cons rfl, clauseWords_cons]
      simp only [size_append]
      omega

theorem size_words_keywords :
    0 < size (words (capitals.word .fromText)) ∧ 0 < size (words (capitals.word .groupBy)) := by
  decide +kernel

theorem words_fromFields (fromFields hint : Text) :
    words (' ' :: fromFields ++ [' '] ++ ' ' :: hint ++ [' ']) = words fromFields ++ words hint :=
  calc words (' ' :: fromFields ++ [' '] ++ ' ' :: hint ++ [' '])
      = words (' ' :: fromFields ++ [' '] ++ ' ' :: hint) := words_concat rfl _
    _ = words (' ' :: fromFields ++ [' ']) ++ words hint := words_append_cons rfl _ _
    _ = words (' ' :: fromFields) ++ words hint := congrArg (· ++ words hint) (words_concat (c := ' ') rfl _)
    _ = words fromFields ++ words hint := congrArg (· ++ words hint) (words_cons (c := ' ') rfl _)

theorem plain_fromFields {fromFields hint : Text} (hfrom : Plain fromFields) (hhint : Plain hint) :
    Plain (' ' :: fromFields ++ [' '] ++ ' ' :: hint ++ [' ']) := by
  have heq : ' ' :: fromFields ++ [' '] ++ ' ' :: hint = ' ' :: fromFields ++ ' ' :: ' ' :: hint := by simp
  rw [heq]
  exact (hfrom.cons_blank.append hhint).concat_blank

/-! ## Texts on several lines -/

theorem SqlMap.SameWords.fromFields (h : map.SameWords) :
    words (QueryHelper.oneLine map.fromFields) = words map.fromFields :=
  h.clauses _ List.mem_cons_self

/-- Where the words of the texts are the same on one line, so are those of the query. -/
theorem SqlMap.SameWords.words_assembled (h : map.SameWords) (lead : Text) (k : Spelling)
    {fromFields fromFields' : Text} (hfrom : words fromFields = words fromFields') :
    words (assembleBehind lead k { map.oneLine with fromFields := fromFields }) =
      words (assembleBehind lead k { map with fromFields := fromFields' }) := by
  have hrest : clauseWords k (optional .whereText map.oneLine.whereCondition ++ map.oneLine.rest) =
      clauseWords k (optional .whereText map.whereCondition ++ map.rest) := by
    rw [rest_onLine, clauseWords_onLine fun clause hclause => h.clauses clause (List.mem_cons_of_mem _ hclause)]
  have hclauses (map : SqlMap) (fromFields : Text) : SqlMap.clauses { map with fromFields := fromFields } =
      (.fromText, fromFields) :: (optional .whereText map.whereCondition ++ map.rest) := rfl
  rw [QueryHelper.words_assembled, QueryHelper.words_assembled, hclauses, hclauses, clauseWords_cons, clauseWords_cons,
    hrest, hfrom]
  exact congrArg (fun a => words (lead ++ k.word .selectText) ++ a ++ _) h.selectFrom

/-- The words of a query are no larger on one line, and where they are as large, they are the same. -/
theorem sameWords_of_size
    (h : size (words map.selectFrom) + size (words map.fromFields) +
        size (clauseWords capitals (optional .whereText map.whereCondition ++ map.rest)) ≤
      size (words (oneLine map.selectFrom)) + size (words (oneLine map.fromFields)) +
        size (clauseWords capitals (optional .whereText map.oneLine.whereCondition ++ map.oneLine.rest))) :
    map.SameWords := by
  have hselect := size_words_oneLine map.selectFrom
  have hfrom := size_words_oneLine map.fromFields
  obtain ⟨hrest, hsame⟩ :=
    size_clauseWords_onLine (k := capitals) (optional .whereText map.whereCondition ++ map.rest)
  rw [rest_onLine] at h
  have hfields : words (oneLine map.fromFields) = words map.fromFields := words_oneLine (by omega)
  exact ⟨words_oneLine (by omega), List.forall_mem_cons.2 ⟨hfields, hsame (by omega)⟩⟩

theorem SqlMap.SameWords.size_rest (h : map.SameWords) :
    size (clauseWords capitals (optional .whereText map.oneLine.whereCondition ++ map.oneLine.rest)) =
      size (clauseWords capitals (optional .whereText map.whereCondition ++ map.rest)) := by
  rw [rest_onLine, clauseWords_onLine fun clause hclause => h.clauses clause (List.mem_cons_of_mem _ hclause)]

theorem having_oneLine : map.oneLine.having = none ↔ map.having = none := Option.map_eq_none_iff

theorem orderBy_oneLine : map.oneLine.orderBy = none ↔ map.orderBy = none := Option.map_eq_none_iff

theorem groupBy_oneLine : map.oneLine.groupBy = none ↔ map.groupBy = none := Option.map_eq_none_iff

/-- The text of `SELECT` that is found is blank where that of the query is. -/
theorem SqlMap.SameWords.strip_selectFrom (h : map.SameWords) :
    strip (QueryHelper.oneLine map.selectFrom) = [] ↔ strip map.selectFrom = [] := by
  rw [← words_eq_nil_iff, h.selectFrom, words_eq_nil_iff]

/-- Where words are written that are as large as those of the query, `FROM` is among them, so the query has a text for
    `SELECT`. -/
theorem sameWords_of_written
    (h : size (words map.selectFrom) + size (words map.fromFields) +
        size (clauseWords capitals (optional .whereText map.whereCondition ++ map.rest)) +
        (if strip (oneLine map.selectFrom) = [] then size (words (capitals.word .fromText)) else 0) ≤
      size (words (oneLine map.selectFrom)) + size (words (oneLine map.fromFields)) +
        size (clauseWords capitals (optional .whereText map.oneLine.whereCondition ++ map.oneLine.rest))) :
    map.SameWords ∧ strip (oneLine map.selectFrom) ≠ [] := by
  have hsame : map.SameWords := sameWords_of_size (by omega)
  refine ⟨hsame, fun hblank => ?_⟩
  have hpos := size_words_keywords.1
  rw [if_pos hblank, hsame.selectFrom, hsame.fromFields, hsame.size_rest] at h
  omega

/-- What is found in a query whose texts have the same words on one line. -/
theorem SqlMap.SameWords.exists_found (hsame : map.SameWords) (hmap : map.oneLine.Plain)
    (hwhere : map.oneLine.whereCondition = some w) (hselect : strip map.selectFrom ≠ [])
    (hboth : map.oneLine.having = none ∨ map.oneLine.orderBy = none) :
    ∃ found, divideSql (assemble k map) = some found ∧ Found map.oneLine found ∧ found.selectFrom ≠ [] := by
  obtain ⟨found, hdivided, hfound⟩ := QueryHelper.exists_found (k := k) hmap hwhere (.inr hboth)
  rw [divideSql_assembled] at hdivided
  refine ⟨found, hdivided, hfound, ?_⟩
  rw [hfound.selectFrom]
  exact fun hblank => hselect (hsame.strip_selectFrom.1 hblank)

/-! ## The rewriters with a hint -/

/-- A query that a rewriter with a hint keeps. -/
theorem of_keepsHint (hlead : Opening lead) (hmap : map.oneLine.Plain) (hwhere : map.oneLine.whereCondition = some w)
    (hkeeps : KeepsHint lead hint k map
      ((divideSql (assemble k map)).map (addHint (lead ++ "SELECT ".toList) hint))) :
    map.SameWords ∧ strip map.selectFrom ≠ [] ∧ (map.having = none ∨ map.orderBy = none) := by
  obtain ⟨newSql, before, after, hresult, ⟨k', hwords⟩, hbefore, -, -⟩ := hkeeps
  rw [hbefore, Option.map_some, Option.some.injEq] at hresult
  subst hresult
  rw [← divideSql_assembled] at hbefore
  obtain ⟨hfound, hcase⟩ := found_of_some hmap hwhere hbefore
  have hfrom := words_fromFields (oneLine map.fromFields) hint
  have hfields : before.fromFields = ' ' :: oneLine map.fromFields ++ [' '] := hfound.fromFields
  have hselected : before.selectFrom = strip (oneLine map.selectFrom) := hfound.selectFrom
  rw [addHint_eq hfound.full] at hwords
  -- the words of the result are no larger than those of the query on one line
  have hsize := size_words_written lead before.selectFrom (before.fromFields ++ ' ' :: hint ++ [' ']) (written before)
  rw [hwords, size_words_assembled hlead, hfields, hfrom, words_append_cons rfl, hfound.size, hselected, words_strip]
    at hsize
  simp only [size_append] at hsize
  have hkept : map.SameWords ∧ strip (oneLine map.selectFrom) ≠ [] := sameWords_of_written (by omega)
  obtain ⟨hsame, hselect⟩ := hkept
  refine ⟨hsame, mt hsame.strip_selectFrom.2 hselect, ?_⟩
  rw [← hselected] at hselect
  by_contra hboth
  rw [not_or, ← having_oneLine, ← orderBy_oneLine] at hboth
  obtain ⟨hhaving, horder⟩ := hboth
  obtain ⟨g, hgroup⟩ := Option.isSome_iff_exists.1 (hcase.resolve_right (by tauto))
  obtain ⟨h, hhaving⟩ := Option.ne_none_iff_exists'.1 hhaving
  obtain ⟨o, horder⟩ := Option.ne_none_iff_exists'.1 horder
  have hhint : words (oneLine map.fromFields ++ ' ' :: hint) = words (map.fromFields ++ ' ' :: hint) := by
    rw [words_append_cons rfl, words_append_cons rfl, hsame.fromFields]
  rw [← hsame.words_assembled lead k' hhint] at hwords
  refine words_swapped hlead hmap hwhere hbefore hselect hgroup hhaving horder ?_ hwords
  rw [hfields, hfrom, words_append_cons rfl]

theorem keepsHint (hlead : Opening lead) (hhint : KeywordFree hint)
    (hmap : map.oneLine.Plain) (hwhere : map.oneLine.whereCondition = some w) (hsame : map.SameWords)
    (hselect : strip map.selectFrom ≠ []) (hboth : map.having = none ∨ map.orderBy = none) :
    KeepsHint lead hint k map ((divideSql (assemble k map)).map (addHint (lead ++ "SELECT ".toList) hint)) := by
  rw [← having_oneLine, ← orderBy_oneLine] at hboth
  obtain ⟨before, hbefore, hfound, hselect'⟩ := hsame.exists_found (k := k) hmap hwhere hselect hboth
  have hfields : before.fromFields = ' ' :: oneLine map.fromFields ++ [' '] := hfound.fromFields
  have hplain : Plain (oneLine (before.fromFields ++ ' ' :: hint ++ [' '])) := by
    have hfieldsLine : oneLine (before.fromFields ++ ' ' :: hint ++ [' ']) =
        ' ' :: oneLine map.fromFields ++ [' '] ++ ' ' :: oneLine hint ++ [' '] := by
      rw [hfields, ← oneLine_oneLine map.fromFields]
      simp [oneLine_append, oneLine_cons, oneLine_oneLine, oneLine_nil]
    rw [hfieldsLine]
    exact plain_fromFields (hmap.clauses _ List.mem_cons_self) hhint.plain
  obtain ⟨k', hwords⟩ := hfound.words hboth lead (before.fromFields ++ ' ' :: hint ++ [' '])
  obtain ⟨after, hafter, hstripped⟩ :=
    (hfound.divided hboth lead _ (oneLine []) hlead hplain mayFollow_nil).of_oneLine
  rw [List.append_nil] at hafter
  rw [hbefore, Option.map_some, addHint_eq hfound.full, rendered_eq hselect' (hfound.order hboth)]
  refine ⟨_, before, after, rfl, ⟨k', hwords.trans (hsame.words_assembled lead k' ?_)⟩, hbefore, hafter, ?_⟩
  · rw [hfields, words_fromFields, words_append_cons rfl, hsame.fromFields]
  · have hnil := stripped_behindLast_concat before []
    rw [List.nil_append, behindLast_nil] at hnil
    rw [SqlMap.texts, SqlMap.texts, hstripped, ← hnil]
    rfl

/-- **The rewriters with a hint** keep a query with `WHERE` if and only if its words are the same on one line, it has a
    text for `SELECT`, and not both `HAVING` and `ORDER BY`. -/
theorem addHint_keeps_iff (hlead : Opening lead) (hhint : KeywordFree hint)
    (hmap : map.KeywordFree) (hwhere : map.whereCondition = some w) :
    KeepsHint lead hint k map ((divideSql (assemble k map)).map (addHint (lead ++ "SELECT ".toList) hint)) ↔
      map.SameWords ∧ strip map.selectFrom ≠ [] ∧ (map.having = none ∨ map.orderBy = none) := by
  have hwhere' : map.oneLine.whereCondition = some (oneLine w) := congrArg (Option.map oneLine) hwhere
  exact ⟨of_keepsHint hlead hmap.plain hwhere',
    fun ⟨hsame, hselect, hboth⟩ => keepsHint hlead hhint hmap.plain hwhere' hsame hselect hboth⟩

/-! ## The rewriter with a limit -/

/-- The clauses that `_add_limit_to_query` writes. -/
def cut (found : SqlMap) : SqlMap := { found with groupBy := none, having := none }

/-- With a text of `GROUP BY` these have fewer words. -/
theorem size_words_cut (found : SqlMap) :
    size (clauseWords capitals (written (cut found))) ≤ size (clauseWords capitals (written found)) ∧
      (found.groupBy.isSome →
        size (clauseWords capitals (written (cut found))) < size (clauseWords capitals (written found))) := by
  have hnone (clause : Clause) : clauseWords capitals (optional clause ((none : Option Text).map (· ++ [' ']))) = [] :=
    rfl
  simp only [cut, written, clauseWords_append, size_append, hnone, size_nil]
  refine ⟨by omega, fun hgroup => ?_⟩
  obtain ⟨g, hgroup⟩ := Option.isSome_iff_exists.1 hgroup
  have hpos : 0 < size (clauseWords capitals (optional .groupBy (found.groupBy.map (· ++ [' '])))) := by
    have hkeyword : 0 < size (words (capitals.word .groupBy)) := size_words_keywords.2
    rw [hgroup, Option.map_some, optional, Option.toList_some, List.map_singleton, clauseWords_cons]
    simp only [size_append]
    omega
  omega

theorem cut_eq_self {found : SqlMap} (hgroup : found.groupBy = none) (hhaving : found.having = none) :
    cut found = found := by
  obtain ⟨fromFields, whereCondition, selectFrom, groupBy, orderBy, having⟩ := found
  subst hgroup hhaving
  rfl

theorem words_padded (hfound : Found map found) : words (found.fromFields ++ [' ']) = words map.fromFields := by
  rw [hfound.fromFields, words_concat rfl, words_concat rfl, words_cons rfl]

theorem words_limit (sql limit : Text) :
    words (sql ++ " limit ".toList ++ limit) = words sql ++ words ("limit ".toList ++ limit) := by
  have heq : sql ++ " limit ".toList ++ limit = sql ++ ' ' :: ("limit ".toList ++ limit) := by simp
  rw [heq, words_append_cons rfl]

/-- A query that the rewriter with a limit keeps. -/
theorem of_keepsLimit {limit : Text} (hmap : map.oneLine.Plain) (hwhere : map.oneLine.whereCondition = some w)
    (hkeeps : KeepsLimit limit k map (addLimitToQuery (assemble k map) limit)) :
    map.SameWords ∧ strip map.selectFrom ≠ [] ∧ map.groupBy = none ∧ (map.having = none ∨ map.orderBy = none) := by
  obtain ⟨newSql, before, after, hresult, ⟨k', hwords⟩, hbefore, -, -⟩ := hkeeps
  rw [addLimitToQuery, hbefore, Option.map_some, Option.some.injEq] at hresult
  subst hresult
  rw [← divideSql_assembled] at hbefore
  obtain ⟨hfound, hcase⟩ := found_of_some hmap hwhere hbefore
  replace hwords : words (limited before) = words (assemble k' map) := by
    have hblank := words_concat (c := ' ') rfl (limited before ++ " limit ".toList ++ limit)
    rw [words_limit] at hblank hwords
    exact List.append_cancel_right (hblank.symm.trans hwords)
  have hselected : before.selectFrom = strip (oneLine map.selectFrom) := hfound.selectFrom
  have hfrom : words (before.fromFields ++ [' ']) = words (oneLine map.fromFields) := words_padded hfound
  have hquery : size (words (assemble k' map)) = size (words (capitals.word .selectText)) +
      size (words map.selectFrom) + size (words (capitals.word .fromText)) + size (words map.fromFields) +
      size (clauseWords capitals (optional .whereText map.whereCondition ++ map.rest)) :=
    size_words_assembled (.inl rfl) map.fromFields
  obtain ⟨hle, hlt⟩ := size_words_cut before
  -- the words before the limit are no larger than those of the query on one line
  have hsize := size_words_written [] before.selectFrom (before.fromFields ++ [' ']) (written (cut before))
  rw [List.nil_append, List.nil_append] at hsize
  have hlimited : limited before = "SELECT ".toList ++ part [] (some before.selectFrom) " FROM ".toList ++
      (before.fromFields ++ [' ']) ++ tail capitals (written (cut before)) := limited_eq hfound.full
  rw [← hlimited, hwords, hquery, hfrom, hselected, words_strip] at hsize
  rw [hfound.size] at hle hlt
  have hkept : map.SameWords ∧ strip (oneLine map.selectFrom) ≠ [] := sameWords_of_written (by omega)
  obtain ⟨hsame, hselect⟩ := hkept
  rw [hsame.selectFrom, hsame.fromFields] at hsize
  rw [hsame.size_rest] at hlt
  have hnone : map.groupBy = none := by
    by_contra hsome
    have hless := hlt (hfound.groupBy.trans (Option.isSome_iff_ne_none.2 (mt groupBy_oneLine.1 hsome)))
    omega
  refine ⟨hsame, mt hsame.strip_selectFrom.2 hselect, hnone, ?_⟩
  rw [← having_oneLine, ← orderBy_oneLine]
  refine hcase.resolve_left ?_
  rw [groupBy_oneLine.2 hnone]
  exact Bool.false_ne_true

theorem keepsLimit {limit : Text} (hlimit : KeywordFree limit) (hmap : map.oneLine.Plain)
    (hwhere : map.oneLine.whereCondition = some w) (hsame : map.SameWords) (hselect : strip map.selectFrom ≠ [])
    (hgroup : map.groupBy = none) (hboth : map.having = none ∨ map.orderBy = none) :
    KeepsLimit limit k map (addLimitToQuery (assemble k map) limit) := by
  rw [← having_oneLine, ← orderBy_oneLine] at hboth
  obtain ⟨before, hbefore, hfound, hselect'⟩ := hsame.exists_found (k := k) hmap hwhere hselect hboth
  have hfields : before.fromFields = ' ' :: oneLine map.fromFields ++ [' '] := hfound.fromFields
  have hplain : Plain (before.fromFields ++ [' ']) := by
    rw [hfields]
    exact (hmap.clauses _ List.mem_cons_self).cons_blank.concat_blank.concat_blank
  have hgroup' := groupBy_oneLine.2 hgroup
  have hnone : before.groupBy = none := by
    rw [← Option.not_isSome_iff_eq_none, hfound.groupBy, hgroup']
    exact Bool.false_ne_true
  have hlimited : limited before = assembleBehind [] capitals (rendered (before.fromFields ++ [' ']) before) := by
    rw [limited_eq hfound.full, ← cut, cut_eq_self hnone (hfound.having hgroup')]
    exact rendered_eq hselect' (hfound.order hboth) [] (before.fromFields ++ [' '])
  have hbehind : oneLine (" limit ".toList ++ limit ++ [' ']) = " limit ".toList ++ oneLine limit ++ [' '] := by
    rw [oneLine_append, oneLine_append]
    rfl
  have hfieldsLine : oneLine (before.fromFields ++ [' ']) = before.fromFields ++ [' '] := oneLine_eq_self hplain.kept
  obtain ⟨k', hwords⟩ := hfound.words hboth [] (before.fromFields ++ [' '])
  have hfollows := mayFollow_limit hlimit.plain
  rw [← hbehind] at hfollows
  rw [← hfieldsLine] at hplain
  obtain ⟨after, hafter, hstripped⟩ := (hfound.divided hboth [] _ _ (.inl rfl) hplain hfollows).of_oneLine
  rw [← hlimited, ← List.append_assoc, ← List.append_assoc] at hafter
  rw [addLimitToQuery, hbefore, Option.map_some]
  refine ⟨_, before, after, rfl, ⟨k', ?_⟩, hbefore, hafter, ?_⟩
  · have hblank := words_concat (c := ' ') rfl (limited before ++ " limit ".toList ++ limit)
    have hpadded : words (before.fromFields ++ [' ']) = words map.fromFields :=
      (words_padded hfound).trans hsame.fromFields
    have hquery := hwords.trans (hsame.words_assembled [] k' hpadded)
    rw [words_limit, hlimited, hquery] at hblank
    rw [words_limit, hlimited]
    exact hblank
  · rw [hstripped, hbehind, hfieldsLine, strip_concat rfl]
    have hlast := stripped_behindLast_concat before (' ' :: (" limit ".toList ++ oneLine limit))
    rw [List.cons_append] at hlast
    rw [hlast, ← behindLast_fromFields hfound.whereCondition]
    rfl

/-- **The rewriter with a limit** keeps a query with `WHERE` if and only if its words are the same on one line, it has a
    text for `SELECT`, no `GROUP BY`, and not both `HAVING` and `ORDER BY`. -/
theorem addLimit_keeps_iff {limit : Text} (hlimit : KeywordFree limit) (hmap : map.KeywordFree)
    (hwhere : map.whereCondition = some w) :
    KeepsLimit limit k map (addLimitToQuery (assemble k map) limit) ↔
      map.SameWords ∧ strip map.selectFrom ≠ [] ∧ map.groupBy = none ∧ (map.having = none ∨ map.orderBy = none) := by
  have hwhere' : map.oneLine.whereCondition = some (oneLine w) := congrArg (Option.map oneLine) hwhere
  exact ⟨of_keepsLimit hmap.plain hwhere', fun ⟨hsame, hselect, hgroup, hboth⟩ =>
    keepsLimit hlimit hmap.plain hwhere' hsame hselect hgroup hboth⟩

end Kept

/-! ## What is kept -/

theorem opening_explain : Opening "EXPLAIN ".toList := .inr ⟨"EXPLAIN".toList, rfl, by decide⟩

/-- **What the rewriters keep**, of a query with `WHERE`: those with a hint keep it if and only if its words are the
    same on one line, it has a text for `SELECT`, and not both `HAVING` and `ORDER BY`, and the one with a limit if it
    has no `GROUP BY` besides. -/
theorem rewriters_keep_iff (k : Spelling) (map : SqlMap) (hmap : map.KeywordFree) (hwhere : map.whereCondition.isSome)
    (indexList : List Index) (hindex : KeywordFree (indexHint indexList)) (hint : Text) (hhint : KeywordFree hint)
    (limit : Text) (hlimit : KeywordFree limit) :
    (KeepsHint [] (indexHint indexList) k map (addIndexHintsToQuery (assemble k map) indexList) ↔
      map.SameWords ∧ strip map.selectFrom ≠ [] ∧ (map.having = none ∨ map.orderBy = none)) ∧
    (KeepsHint "EXPLAIN ".toList hint k map (addExplainWithHints (assemble k map) hint) ↔
      map.SameWords ∧ strip map.selectFrom ≠ [] ∧ (map.having = none ∨ map.orderBy = none)) ∧
    (KeepsLimit limit k map (addLimitToQuery (assemble k map) limit) ↔
      map.SameWords ∧ strip map.selectFrom ≠ [] ∧ map.groupBy = none ∧
        (map.having = none ∨ map.orderBy = none)) := by
  obtain ⟨w, hwhere⟩ := Option.isSome_iff_exists.1 hwhere
  exact ⟨addHint_keeps_iff (.inl rfl) hindex hmap hwhere, addHint_keeps_iff opening_explain hhint hmap hwhere,
    addLimit_keeps_iff hlimit hmap hwhere⟩

instance (text : Text) : Decidable (KeywordFree text) :=
  inferInstanceAs (Decidable (∀ word ∈ lookedFor, Free word (oneLine text)))

instance (map : SqlMap) : Decidable map.KeywordFree :=
  decidable_of_iff (QueryHelper.KeywordFree map.selectFrom ∧ ∀ clause ∈ map.clauses, QueryHelper.KeywordFree clause.2)
    ⟨fun h => ⟨h.1, h.2⟩, fun h => ⟨h.selectFrom, h.clauses⟩⟩

instance (map : SqlMap) : Decidable map.SameWords :=
  decidable_of_iff (words (oneLine map.selectFrom) = words map.selectFrom ∧
      ∀ clause ∈ map.clauses, words (oneLine clause.2) = words clause.2)
    ⟨fun h => ⟨h.1, h.2⟩, fun h => ⟨h.selectFrom, h.clauses⟩⟩

def byStars : List Index := [⟨"stars_idx".toList, "GSI".toList⟩]

/-- `SELECT city FROM hotels WHERE stars > 3 GROUP BY city HAVING COUNT(*) > 2 ORDER BY city`. -/
def sortedCities : SqlMap :=
  ⟨"hotels".toList, some "stars > 3".toList, "city".toList, some "city".toList, some "city".toList,
    some "COUNT(*) > 2".toList⟩

/-- `SELECT name FROM hotels WHERE stars > 3 AND open`, with the end of a line before `AND`. -/
def twoLines : SqlMap := ⟨"hotels".toList, some "stars > 3\nAND open".toList, "name".toList, none, none, none⟩

theorem samples_keywordFree :
    (sortedNames.KeywordFree ∧ sortedNames.SameWords ∧ strip sortedNames.selectFrom ≠ []) ∧
    sortedCities.KeywordFree ∧ (twoLines.KeywordFree ∧ ¬ twoLines.SameWords) ∧
    KeywordFree (indexHint byStars) ∧ KeywordFree "USE INDEX(a)".toList ∧ KeywordFree "5".toList := by
  decide +kernel

theorem rewriters_keep_sortedNames :
    KeepsHint [] (indexHint byStars) capitals sortedNames
      (addIndexHintsToQuery (assemble capitals sortedNames) byStars) ∧
    KeepsHint "EXPLAIN ".toList "USE INDEX(a)".toList capitals sortedNames
      (addExplainWithHints (assemble capitals sortedNames) "USE INDEX(a)".toList) ∧
    KeepsLimit "5".toList capitals sortedNames (addLimitToQuery (assemble capitals sortedNames) "5".toList) := by
  obtain ⟨⟨hmap, hsame, hselect⟩, -, -, hindex, hhint, hlimit⟩ := samples_keywordFree
  have h :=
    rewriters_keep_iff capitals sortedNames hmap rfl byStars hindex "USE INDEX(a)".toList hhint "5".toList hlimit
  exact ⟨h.1.2 ⟨hsame, hselect, .inl rfl⟩, h.2.1.2 ⟨hsame, hselect, .inl rfl⟩, h.2.2.2 ⟨hsame, hselect, rfl, .inl rfl⟩⟩

/-- Those with a hint write `ORDER BY` before `HAVING`, the one with a limit leaves `GROUP BY` and `HAVING` out, and all
    three join the words of two lines. -/
theorem rewriters_not_keep :
    (¬ KeepsHint [] (indexHint byStars) capitals sortedCities
        (addIndexHintsToQuery (assemble capitals sortedCities) byStars) ∧
      ¬ KeepsHint "EXPLAIN ".toList "USE INDEX(a)".toList capitals sortedCities
        (addExplainWithHints (assemble capitals sortedCities) "USE INDEX(a)".toList) ∧
      ¬ KeepsLimit "5".toList capitals sortedCities (addLimitToQuery (assemble capitals sortedCities) "5".toList)) ∧
    ¬ KeepsHint [] (indexHint byStars) capitals twoLines
        (addIndexHintsToQuery (assemble capitals twoLines) byStars) ∧
      ¬ KeepsHint "EXPLAIN ".toList "USE INDEX(a)".toList capitals twoLines
        (addExplainWithHints (assemble capitals twoLines) "USE INDEX(a)".toList) ∧
      ¬ KeepsLimit "5".toList capitals twoLines (addLimitToQuery (assemble capitals twoLines) "5".toList) := by
  obtain ⟨-, hcities, ⟨hlines, hjoined⟩, hindex, hhint, hlimit⟩ := samples_keywordFree
  have hswapped : ¬ (sortedCities.having = none ∨ sortedCities.orderBy = none) :=
    not_or.2 ⟨Option.some_ne_none _, Option.some_ne_none _⟩
  refine ⟨⟨fun h => hswapped ?_, fun h => hswapped ?_, fun h => hswapped ?_⟩,
    fun h => hjoined ?_, fun h => hjoined ?_, fun h => hjoined ?_⟩
  · exact ((addHint_keeps_iff (.inl rfl) hindex hcities rfl).1 h).2.2
  · exact ((addHint_keeps_iff opening_explain hhint hcities rfl).1 h).2.2
  · exact ((addLimit_keeps_iff hlimit hcities rfl).1 h).2.2.2
  · exact ((addHint_keeps_iff (.inl rfl) hindex hlines rfl).1 h).1
  · exact ((addHint_keeps_iff opening_explain hhint hlines rfl).1 h).1
  · exact ((addLimit_keeps_iff hlimit hlines rfl).1 h).1

end QueryHelper
