import TestInfra.QueryHelper.QueryWords

set_option autoImplicit false

/-! # Queries rewritten

`_add_index_hints_to_query`, `_add_explain_with_hints` and `_add_limit_to_query`
(`lib/couchbase_helper/query_helper.py`) divide a query and write it down again, with a hint behind the texts of `FROM`
or a limit at the end. Each writes the clauses that it knows, in its own order, and leaves out those whose text is
empty.

What they write is in good order a query again, assembled from the texts that were found (`rendered`), so that it is
divided as any assembled query is. -/

open PyText SplitText

namespace QueryHelper

/-! ## The rewriters -/

/-- `if text: new_sql += start + text + stop`. -/
def part (start : Text) (text : Option Text) (stop : Text) : Text :=
  match text with
  | some text => if text ≠ [] then start ++ text ++ stop else []
  | none => []

/-- What the rewriters with a hint write behind the first words. -/
def addHint (newSql indexHint : Text) (sqlMap : SqlMap) : Text :=
  newSql ++ part [] (some sqlMap.selectFrom) " FROM ".toList ++
    part [] (some sqlMap.fromFields) (" ".toList ++ indexHint ++ " ".toList) ++
    part " WHERE ".toList sqlMap.whereCondition " ".toList ++ part " GROUP BY ".toList sqlMap.groupBy " ".toList ++
    part " ORDER BY ".toList sqlMap.orderBy " ".toList ++ part " HAVING ".toList sqlMap.having " ".toList

/-- `_add_explain_with_hints`. -/
def addExplainWithHints (sql indexHint : Text) : Option Text :=
  (divideSql sql).map (addHint "EXPLAIN SELECT ".toList indexHint)

structure Index where
  name : Text
  type : Text

def indexHint (indexList : List Index) : Text :=
  " USE INDEX(".toList ++ join ',' (indexList.map fun index => index.name ++ " USING ".toList ++ index.type) ++
    ")".toList

/-- `_add_index_hints_to_query`. -/
def addIndexHintsToQuery (sql : Text) (indexList : List Index) : Option Text :=
  (divideSql sql).map (addHint "SELECT ".toList (indexHint indexList))

/-- The query of `_add_limit_to_query`, before the limit. -/
def limited (sqlMap : SqlMap) : Text :=
  "SELECT ".toList ++ part [] (some sqlMap.selectFrom) " FROM ".toList ++ part [] (some sqlMap.fromFields) " ".toList ++
    part " WHERE ".toList sqlMap.whereCondition " ".toList ++ part " ORDER BY ".toList sqlMap.orderBy " ".toList

/-- `_add_limit_to_query`. -/
def addLimitToQuery (sql limit : Text) : Option Text :=
  (divideSql sql).map fun sqlMap => limited sqlMap ++ " limit ".toList ++ limit ++ " ".toList

/-! ## What is written -/

/-- The clauses behind `FROM` as the rewriters write them. -/
def written (found : SqlMap) : List (Clause × Text) :=
  optional .whereText (found.whereCondition.map (· ++ [' '])) ++ optional .groupBy (found.groupBy.map (· ++ [' '])) ++
    optional .orderBy (found.orderBy.map (· ++ [' '])) ++ optional .having (found.having.map (· ++ [' ']))

/-- The texts that were found, each with the blank that is written behind it, and another text of `FROM`. -/
def rendered (fromFields : Text) (found : SqlMap) : SqlMap where
  fromFields := fromFields
  whereCondition := found.whereCondition.map (· ++ [' '])
  selectFrom := found.selectFrom
  groupBy := found.groupBy.map (· ++ [' '])
  orderBy := found.orderBy.map (· ++ [' '])
  having := found.having.map (· ++ [' '])

/-- No text but that of `SELECT` is empty. -/
structure Full (found : SqlMap) : Prop where
  fromFields : found.fromFields ≠ []
  others : ∀ text ∈ [found.whereCondition, found.groupBy, found.orderBy, found.having], text ≠ some []

theorem part_eq_tail (clause : Clause) {text : Option Text} (h : text ≠ some []) :
    part (' ' :: capitals.word clause ++ [' ']) text [' '] =
      tail capitals (optional clause (text.map (· ++ [' ']))) := by
  cases text with
  | none => rfl
  | some text =>
      have hne : text ≠ [] := fun heq => h (congrArg some heq)
      simp [part, hne, tail, optional]

theorem tail_append {k : Spelling} (a b : List (Clause × Text)) : tail k (a ++ b) = tail k a ++ tail k b :=
  List.flatMap_append

theorem addHint_eq {found : SqlMap} (hfull : Full found) (lead hint : Text) :
    addHint (lead ++ "SELECT ".toList) hint found =
      lead ++ "SELECT ".toList ++ part [] (some found.selectFrom) " FROM ".toList ++
        (found.fromFields ++ ' ' :: hint ++ [' ']) ++ tail capitals (written found) := by
  obtain ⟨hfrom, hothers⟩ := hfull
  have hwhere := part_eq_tail .whereText (hothers found.whereCondition (by simp))
  have hgroup := part_eq_tail .groupBy (hothers found.groupBy (by simp))
  have horder := part_eq_tail .orderBy (hothers found.orderBy (by simp))
  have hhaving := part_eq_tail .having (hothers found.having (by simp))
  have hfields : part [] (some found.fromFields) (" ".toList ++ hint ++ " ".toList) =
      found.fromFields ++ ' ' :: hint ++ [' '] := by
    rw [part, if_pos hfrom, List.nil_append, List.append_assoc, List.append_assoc]
    rfl
  rw [written, tail_append, tail_append, tail_append, ← hwhere, ← hgroup, ← horder, ← hhaving, ← hfields]
  unfold addHint
  simp only [List.append_assoc]
  rfl

theorem limited_eq {found : SqlMap} (hfull : Full found) :
    limited found = "SELECT ".toList ++ part [] (some found.selectFrom) " FROM ".toList ++
      (found.fromFields ++ [' ']) ++ tail capitals (written { found with groupBy := none, having := none }) := by
  obtain ⟨hfrom, hothers⟩ := hfull
  have hwhere := part_eq_tail .whereText (hothers found.whereCondition (by simp))
  have horder := part_eq_tail .orderBy (hothers found.orderBy (by simp))
  have hfields : part [] (some found.fromFields) " ".toList = found.fromFields ++ [' '] := by
    rw [part, if_pos hfrom, List.nil_append]
    rfl
  have hnone (clause : Clause) : tail capitals (optional clause ((none : Option Text).map (· ++ [' ']))) = [] := rfl
  rw [written, tail_append, tail_append, tail_append, ← hwhere, ← horder, ← hfields, hnone, hnone]
  unfold limited
  simp only [List.append_assoc, List.append_nil]
  rfl

/-- With a text for `SELECT`, what is written is assembled from clauses. -/
theorem written_eq {selectFrom : Text} (hselect : selectFrom ≠ []) (lead fromFields : Text)
    (clauses : List (Clause × Text)) :
    lead ++ "SELECT ".toList ++ part [] (some selectFrom) " FROM ".toList ++ fromFields ++ tail capitals clauses =
      lead ++ capitals.word .selectText ++ ' ' :: selectFrom ++ tail capitals ((.fromText, fromFields) :: clauses) := by
  rw [tail_cons]
  simp [part, hselect, capitals]

/-- And where the clauses are in the order of a query, that is a query. -/
theorem rendered_eq {found : SqlMap} (hselect : found.selectFrom ≠ []) (h : found.having = none ∨ found.orderBy = none)
    (lead fromFields : Text) :
    lead ++ "SELECT ".toList ++ part [] (some found.selectFrom) " FROM ".toList ++ fromFields ++
      tail capitals (written found) = assembleBehind lead capitals (rendered fromFields found) := by
  have hclauses : (rendered fromFields found).clauses = (.fromText, fromFields) :: written found := by
    rcases h with h | h
    · simp [SqlMap.clauses, SqlMap.rest, rendered, written, h, optional]
    · simp [SqlMap.clauses, SqlMap.rest, rendered, written, h, optional]
  rw [written_eq hselect, assembleBehind, hclauses]
  rfl

/-! ## Behind the last clause -/

/-- With text behind that of the last clause. -/
def SqlMap.behindLast (text : Text) (map : SqlMap) : SqlMap :=
  if map.orderBy.isSome then { map with orderBy := map.orderBy.map (· ++ text) }
  else if map.having.isSome then { map with having := map.having.map (· ++ text) }
  else if map.groupBy.isSome then { map with groupBy := map.groupBy.map (· ++ text) }
  else if map.whereCondition.isSome then { map with whereCondition := map.whereCondition.map (· ++ text) }
  else { map with fromFields := map.fromFields ++ text }

section Last

variable {lead : Text} {k : Spelling} {map : SqlMap} {text : Text}

/-- What is written behind a query is behind its last clause. -/
theorem assembleBehind_append (lead : Text) (k : Spelling) (map : SqlMap) (text : Text) :
    assembleBehind lead k map ++ text = assembleBehind lead k (map.behindLast text) := by
  obtain ⟨fromFields, whereCondition, selectFrom, groupBy, orderBy, having⟩ := map
  cases orderBy <;> cases having <;> cases groupBy <;> cases whereCondition <;>
    simp [SqlMap.behindLast, assembleBehind, tail, SqlMap.clauses, SqlMap.rest, optional]

theorem behindLast_whereCondition : (map.behindLast text).whereCondition.isSome = map.whereCondition.isSome := by
  unfold SqlMap.behindLast
  split_ifs <;> simp

theorem behindLast_groupBy : (map.behindLast text).groupBy.isSome = map.groupBy.isSome := by
  unfold SqlMap.behindLast
  split_ifs <;> simp

theorem behindLast_having : (map.behindLast text).having.isSome = map.having.isSome := by
  unfold SqlMap.behindLast
  split_ifs <;> simp

theorem stripped_behindLast_concat (map : SqlMap) (text : Text) :
    (map.behindLast (text ++ [' '])).stripped = (map.behindLast text).stripped := by
  have hblank (a : Text) : strip (a ++ (text ++ [' '])) = strip (a ++ text) := by
    rw [← List.append_assoc, strip_concat rfl]
  unfold SqlMap.behindLast
  split_ifs <;> simp [SqlMap.stripped, Function.comp_def, hblank]

theorem behindLast_nil (map : SqlMap) : map.behindLast [] = map := by
  unfold SqlMap.behindLast
  split_ifs <;> simp

theorem behindLast_fromFields (h : map.whereCondition.isSome) : (map.behindLast text).fromFields = map.fromFields := by
  simp only [SqlMap.behindLast, h, if_true]
  split_ifs <;> rfl

/-- In the texts as they are written, the text is behind the blank of the last one. -/
theorem stripped_rendered {found : SqlMap} (h : found.whereCondition.isSome) (fromFields text : Text) :
    ((rendered fromFields found).behindLast text).stripped =
      { (found.behindLast (' ' :: text)).stripped with fromFields := strip fromFields } := by
  have hblank (a : Text) : strip (a ++ [' ']) = strip a := strip_concat rfl a
  simp only [SqlMap.behindLast, rendered, Option.isSome_map, h, if_true]
  split_ifs <;> simp [SqlMap.stripped, Function.comp_def, hblank]

end Last

/-! ## Texts that stay plain -/

theorem not_double : ∀ word ∈ lookedFor, Free [' ', ' '] word := by
  decide +kernel

theorem Plain.cons_blank {text : Text} (h : Plain text) : Plain (' ' :: text) where
  free := fun word hword => free_blank_cons hword (h.free word hword)
  kept := List.forall_mem_cons.2 ⟨by decide, h.kept⟩

theorem Plain.concat_blank {text : Text} (h : Plain text) : Plain (text ++ [' ']) where
  free := fun word hword => free_concat_blank hword (h.free word hword)
  kept := List.forall_mem_append.2 ⟨h.kept, List.forall_mem_singleton.2 (by decide)⟩

/-- Two blanks keep two texts apart. -/
theorem Plain.append {a b : Text} (ha : Plain a) (hb : Plain b) : Plain (a ++ ' ' :: ' ' :: b) where
  free := by
    intro word hword
    refine free_append_cons_iff.2 ⟨ha.free word hword, hb.cons_blank.free word hword, ?_⟩
    rintro ⟨u, v, rfl, -, hv⟩
    obtain ⟨hne, -⟩ := not_begins _ hword "FROM".toList (by decide) v ((List.mem_tails ..).2 ⟨u ++ [' '], by simp⟩)
      ((List.mem_tails ..).2 (List.suffix_append ..))
    obtain ⟨c, v, rfl⟩ := List.exists_cons_of_ne_nil hne
    obtain rfl : c = ' ' := (List.cons_prefix_cons.1 hv).1
    exact not_double _ hword ⟨u, v, by simp⟩
  kept := List.forall_mem_append.2 ⟨ha.kept, hb.cons_blank.cons_blank.kept⟩

theorem Plain.strip {text : Text} (h : Plain text) : Plain (PyText.strip text) := by
  obtain ⟨before, after, htext, -, -⟩ := exists_strip text
  have hpart : PyText.strip text <:+: text := ⟨before, after, htext.symm⟩
  exact ⟨fun word hword => (h.free word hword).of_part hpart, fun c hc => h.kept c (hpart.subset hc)⟩

theorem Padded.plain {text found : Text} (h : Padded text found) (htext : Plain text) : Plain found := by
  rcases h with rfl | rfl
  · exact htext.cons_blank
  · exact htext.cons_blank.concat_blank

theorem Padded.words_eq {text found : Text} (h : Padded text found) : words found = words text := by
  rcases h with rfl | rfl
  · exact words_cons rfl text
  · rw [words_concat rfl, words_cons rfl]

/-- What may be written behind a clause: the text in front of it stays plain. -/
def MayFollow (behind : Text) : Prop := ∀ text, Plain text → Plain (text ++ behind)

theorem mayFollow_nil : MayFollow [] := by
  intro text h
  rwa [List.append_nil]

theorem plain_limit : Plain "limit".toList := by decide +kernel

/-- What is before a blank of a word is not how `limit` ends, and what is behind it not how it begins. -/
theorem not_limit : ∀ word ∈ lookedFor, (∀ u ∈ word.inits, u ++ [' '] ∈ word.inits → ¬ u <:+ "limit".toList) ∧
    ∀ v ∈ word.tails, ' ' :: v ∈ word.tails → v ≠ [] ∧ v.head? ≠ some 'l' := by
  decide +kernel

/-- A limit may. -/
theorem mayFollow_limit {limit : Text} (h : Plain limit) : MayFollow (" limit ".toList ++ limit ++ [' ']) := by
  have hlimit : Plain ("limit".toList ++ ' ' :: limit) := by
    refine ⟨fun word hword => free_append_cons_iff.2 ⟨plain_limit.free word hword, h.free word hword, ?_⟩,
      List.forall_mem_append.2 ⟨plain_limit.kept, h.cons_blank.kept⟩⟩
    rintro ⟨u, v, rfl, hu, -⟩
    exact (not_limit _ hword).1 u ((List.mem_inits ..).2 (List.prefix_append ..))
      ((List.mem_inits ..).2 ⟨v, by simp⟩) hu
  intro text htext
  have heq : text ++ (" limit ".toList ++ limit ++ [' ']) =
      text ++ ' ' :: ("limit".toList ++ ' ' :: limit) ++ [' '] := by simp
  rw [heq]
  have hkept := List.forall_mem_append.2 ⟨htext.kept, hlimit.cons_blank.kept⟩
  refine Plain.concat_blank
    ⟨fun word hword => free_append_cons_iff.2 ⟨htext.free word hword, hlimit.free word hword, ?_⟩, hkept⟩
  rintro ⟨u, v, rfl, -, hv⟩
  obtain ⟨hne, hhead⟩ := (not_limit _ hword).2 v ((List.mem_tails ..).2 ⟨u ++ [' '], by simp⟩)
    ((List.mem_tails ..).2 (List.suffix_append ..))
  obtain ⟨c, v, rfl⟩ := List.exists_cons_of_ne_nil hne
  obtain rfl : c = 'l' := (List.cons_prefix_cons.1 hv).1
  exact hhead rfl

theorem MayFollow.behindLast {behind : Text} (hbehind : MayFollow behind) {map : SqlMap} (h : map.Plain) :
    (map.behindLast behind).Plain := by
  have hclauses := h.clauses
  have hselect := h.selectFrom
  simp only [SqlMap.clauses, SqlMap.rest, List.forall_mem_cons, List.forall_mem_append] at hclauses
  obtain ⟨hfrom, hwhere, hgroup, hhaving, horder⟩ := hclauses
  have hmap {clause : Clause} {text : Option Text} (htext : ∀ c ∈ optional clause text, Plain c.2) :
      ∀ c ∈ optional clause (text.map (· ++ behind)), Plain c.2 := by
    cases text with
    | none => exact htext
    | some text =>
        intro c hc
        obtain rfl := List.mem_singleton.1 hc
        exact hbehind _ (htext _ (List.mem_singleton_self _))
  unfold SqlMap.behindLast
  split_ifs <;> refine ⟨hselect, ?_⟩ <;>
    simp only [SqlMap.clauses, SqlMap.rest, List.forall_mem_cons, List.forall_mem_append]
  · exact ⟨hfrom, hwhere, hgroup, hhaving, hmap horder⟩
  · exact ⟨hfrom, hwhere, hgroup, hmap hhaving, horder⟩
  · exact ⟨hfrom, hwhere, hmap hgroup, hhaving, horder⟩
  · exact ⟨hfrom, hmap hwhere, hgroup, hhaving, horder⟩
  · exact ⟨hbehind _ hfrom, hwhere, hgroup, hhaving, horder⟩

/-! ## What is found again -/

section Found

variable {lead fromFields behind w : Text} {k : Spelling} {map found : SqlMap}

/-- The same words, also with a blank behind. -/
theorem clauseWords_optional {text found : Option Text} (h : Option.Rel Padded text found) (clause : Clause) :
    clauseWords k (optional clause (found.map (· ++ [' ']))) = clauseWords k (optional clause text) := by
  cases h with
  | none => rfl
  | @some text found h =>
      have hwords : words (found ++ [' ']) = words text := by rw [words_concat rfl, h.words_eq]
      simp [clauseWords, optional, hwords]

theorem plain_optional {text found : Option Text} (h : Option.Rel Padded text found) {clause : Clause}
    (hplain : ∀ c ∈ optional clause text, Plain c.2) :
    ∀ c ∈ optional clause (found.map (· ++ [' '])), Plain c.2 := by
  cases h with
  | none => exact hplain
  | some h =>
      intro c hc
      obtain rfl := List.mem_singleton.1 hc
      exact (h.plain (hplain _ (List.mem_singleton_self _))).concat_blank

theorem Holds.plain_rendered (h : Holds map found) (hmap : map.Plain) (hfrom : Plain fromFields) :
    (rendered fromFields found).Plain where
  selectFrom := by
    rw [rendered, h.selectFrom]
    exact hmap.selectFrom.strip
  clauses := by
    have hclauses := hmap.clauses
    simp only [SqlMap.clauses, SqlMap.rest, List.forall_mem_cons, List.forall_mem_append] at hclauses ⊢
    obtain ⟨-, hwhere, hgroup, hhaving, horder⟩ := hclauses
    exact ⟨hfrom, plain_optional h.whereCondition hwhere, plain_optional h.groupBy hgroup,
      plain_optional h.having hhaving, plain_optional h.orderBy horder⟩

/-- The words of what is written are those of the query. -/
theorem Holds.words_rendered (h : Holds map found) : words (assembleBehind lead capitals (rendered fromFields found)) =
    words (assembleBehind lead capitals { map with fromFields := fromFields }) := by
  rw [words_assembled, words_assembled]
  simp only [SqlMap.clauses, SqlMap.rest, clauseWords_cons, clauseWords_append]
  simp only [rendered, clauseWords_optional h.whereCondition, clauseWords_optional h.groupBy,
    clauseWords_optional h.having, clauseWords_optional h.orderBy]
  rw [h.selectFrom, words_strip]

theorem isSome_of_rel {text found : Option Text} (h : Option.Rel Padded text found) : found.isSome = text.isSome := by
  cases h with
  | none => rfl
  | some => rfl

/-- What is written is divided into the texts that were found, but for that of `FROM`, and with what is written behind
    it in the last of them. -/
def Divided (lead fromFields behind : Text) (found : SqlMap) : Prop :=
  ∃ after, divideSql (assembleBehind lead capitals (rendered fromFields found) ++ behind) = some after ∧
    after.stripped = { (found.behindLast (' ' :: behind)).stripped with fromFields := strip fromFields }

theorem Holds.divided (h : Holds map found) (hlead : Opening lead) (hmap : map.Plain)
    (hwhere : map.whereCondition = some w) (hhaving : map.groupBy = none → map.having = none)
    (hfrom : Plain fromFields) (hbehind : MayFollow behind) : Divided lead fromFields behind found := by
  have hfound : found.whereCondition.isSome := by
    rw [isSome_of_rel h.whereCondition, hwhere]
    rfl
  obtain ⟨w', hwhere'⟩ : ∃ w', ((rendered fromFields found).behindLast behind).whereCondition = some w' := by
    rw [← Option.isSome_iff_exists, behindLast_whereCondition, rendered, Option.isSome_map, hfound]
  have hgroup' : ((rendered fromFields found).behindLast behind).groupBy = none →
      ((rendered fromFields found).behindLast behind).having = none := by
    intro hnone
    rw [← Option.not_isSome_iff_eq_none, behindLast_groupBy, rendered, Option.isSome_map] at hnone
    rw [← Option.not_isSome_iff_eq_none, behindLast_having, rendered, Option.isSome_map]
    rw [isSome_of_rel h.groupBy, Option.not_isSome_iff_eq_none] at hnone
    rw [isSome_of_rel h.having, hhaving hnone]
    exact Bool.false_ne_true
  obtain ⟨after, hafter, hholds⟩ :=
    divideSql_holds (k := capitals) hlead (hbehind.behindLast (h.plain_rendered hmap hfrom)) hwhere' hgroup'
  rw [← assembleBehind_append] at hafter
  exact ⟨after, hafter, by rw [hholds.stripped_eq, stripped_rendered hfound]⟩

/-- The keywords in capitals, but for `HAVING`. -/
def keepHaving (k : Spelling) : Spelling where
  word clause := if clause = .having then k.word .having else capitals.word clause
  mem clause := by
    split
    · next h => exact h ▸ k.mem .having
    · exact capitals.mem clause

/-- Where `HAVING` was found in the condition, it is written as it was. -/
theorem words_having {h : Text} (hwhere : map.whereCondition = some w) (hgroup : map.groupBy = none)
    (hhaving : map.having = some h) (horder : map.orderBy = none) (x : Text) :
    words (assembleBehind lead capitals (rendered fromFields
      ⟨x, some (' ' :: w ++ tail k [(.having, h)]), strip map.selectFrom, none, none, none⟩)) =
    words (assembleBehind lead (keepHaving k) { map with fromFields := fromFields }) := by
  have hcondition : words (' ' :: w ++ tail k [(.having, h)] ++ [' ']) = words w ++ clauseWords k [(.having, h)] := by
    rw [words_concat rfl, words_tail, words_cons rfl]
  have hclauses : (rendered fromFields
      ⟨x, some (' ' :: w ++ tail k [(.having, h)]), strip map.selectFrom, none, none, none⟩).clauses =
        [(.fromText, fromFields), (.whereText, ' ' :: w ++ tail k [(.having, h)] ++ [' '])] := rfl
  have hclauses' : SqlMap.clauses { map with fromFields := fromFields } =
      [(.fromText, fromFields), (.whereText, w), (.having, h)] := by
    simp [SqlMap.clauses, SqlMap.rest, optional, hwhere, hgroup, hhaving, horder]
  rw [words_assembled, words_assembled, hclauses, hclauses']
  simp only [clauseWords_cons, clauseWords_nil, hcondition, List.append_nil]
  simp [rendered, keepHaving, words_strip]

/-- And it is found in the condition again. -/
theorem divided_having {h : Text} (hlead : Opening lead) (hmap : map.Plain) (hwhere : map.whereCondition = some w)
    (hgroup : map.groupBy = none) (hhaving : map.having = some h) (horder : map.orderBy = none)
    (hfrom : Plain fromFields) (hbehind : MayFollow behind) (x : Text) :
    Divided lead fromFields behind
      ⟨x, some (' ' :: w ++ tail k [(.having, h)]), strip map.selectFrom, none, none, none⟩ := by
  have hclauses := hmap.clauses
  rw [clauses_of_where hwhere, SqlMap.rest, hgroup, hhaving, horder] at hclauses
  have hw : Plain w := hclauses (.whereText, w) (by simp)
  have hh : Plain h := hclauses (.having, h) (by simp [optional])
  let spelled : SqlMap := ⟨fromFields, some (' ' :: w), strip map.selectFrom, none, none, some (h ++ [' '] ++ behind)⟩
  have heq : assembleBehind lead capitals (rendered fromFields
      ⟨x, some (' ' :: w ++ tail k [(.having, h)]), strip map.selectFrom, none, none, none⟩) ++ behind =
        assembleBehind lead (keepHaving k) spelled := by
    simp [assembleBehind, rendered, SqlMap.clauses, SqlMap.rest, optional, tail, keepHaving, spelled]
  have hplain : spelled.Plain := by
    refine ⟨hmap.selectFrom.strip, ?_⟩
    simp only [SqlMap.clauses, SqlMap.rest, List.forall_mem_cons, List.forall_mem_append]
    have hhaving' := hbehind _ hh.concat_blank
    exact ⟨hfrom, by simpa [optional, spelled] using hw.cons_blank, by simp [optional, spelled],
      by simpa [optional, spelled] using hhaving', by simp [optional, spelled]⟩
  have hcondition : strip (' ' :: (' ' :: w) ++ tail (keepHaving k) [(.having, h ++ [' '] ++ behind)]) =
      strip (' ' :: w ++ tail k [(.having, h)] ++ ' ' :: behind) := by
    have htail : ' ' :: (' ' :: w) ++ tail (keepHaving k) [(.having, h ++ [' '] ++ behind)] =
        ' ' :: (' ' :: w ++ tail k [(.having, h)] ++ ' ' :: behind) := by simp [tail, keepHaving]
    rw [htail, strip_cons rfl]
  have hfields : strip (' ' :: spelled.fromFields ++ [' ']) = strip fromFields := by
    rw [strip_concat rfl, strip_cons rfl]
  have hselect : strip (strip spelled.selectFrom) = strip (strip map.selectFrom) := congrArg strip (strip_strip _)
  rw [Divided, heq]
  refine ⟨_, divideSql_having hlead hplain rfl rfl rfl rfl, ?_⟩
  simp only [SqlMap.stripped, SqlMap.behindLast, Option.isSome_none, Option.isSome_some, Bool.false_eq_true, if_false,
    if_true, Option.map_some, Option.map_none, hcondition, hfields, hselect]

/-- What the rewriters need of the texts that were found. -/
structure Found (map found : SqlMap) : Prop where
  full : Full found
  selectFrom : found.selectFrom = strip map.selectFrom
  fromFields : found.fromFields = ' ' :: map.fromFields ++ [' ']
  groupBy : found.groupBy.isSome = map.groupBy.isSome
  having : map.groupBy = none → found.having = none
  whereCondition : found.whereCondition.isSome
  size : size (clauseWords capitals (written found)) =
    size (clauseWords capitals (optional .whereText map.whereCondition ++ map.rest))
  order : map.having = none ∨ map.orderBy = none → found.having = none ∨ found.orderBy = none
  words : map.having = none ∨ map.orderBy = none → ∀ lead fromFields, ∃ k,
    words (assembleBehind lead capitals (rendered fromFields found)) =
      words (assembleBehind lead k { map with fromFields := fromFields })
  divided : map.having = none ∨ map.orderBy = none → ∀ lead fromFields behind, Opening lead → Plain fromFields →
    MayFollow behind → Divided lead fromFields behind found

theorem found_of_holds (h : Holds map found) (hmap : map.Plain) (hwhere : map.whereCondition = some w)
    (hhaving : map.groupBy = none → map.having = none) : Found map found where
  full := by
    have hfull {text found : Option Text} (h : Option.Rel Padded text found) : found ≠ some [] := by
      cases h with
      | none => simp
      | some h => rcases h with rfl | rfl <;> simp
    refine ⟨by rw [h.fromFields]; simp, ?_⟩
    simp only [List.forall_mem_cons]
    exact ⟨hfull h.whereCondition, hfull h.groupBy, hfull h.orderBy, hfull h.having, by simp⟩
  selectFrom := h.selectFrom
  fromFields := by
    rw [h.fromFields, hwhere]
    rfl
  groupBy := isSome_of_rel h.groupBy
  having := by
    intro hgroup
    rw [← Option.not_isSome_iff_eq_none, isSome_of_rel h.having, hhaving hgroup]
    exact Bool.false_ne_true
  whereCondition := by
    rw [isSome_of_rel h.whereCondition, hwhere]
    rfl
  size := by
    simp only [written, SqlMap.rest, clauseWords_append, clauseWords_optional h.whereCondition,
      clauseWords_optional h.groupBy, clauseWords_optional h.having, clauseWords_optional h.orderBy, size_append]
    omega
  order := by
    rw [← Option.not_isSome_iff_eq_none, ← Option.not_isSome_iff_eq_none, ← Option.not_isSome_iff_eq_none,
      ← Option.not_isSome_iff_eq_none, isSome_of_rel h.having, isSome_of_rel h.orderBy]
    exact id
  words := fun _ _ _ => ⟨capitals, h.words_rendered⟩
  divided := fun _ _ _ _ hlead hfrom hbehind => h.divided hlead hmap hwhere hhaving hfrom hbehind

theorem found_of_having {h : Text} (hmap : map.Plain) (hwhere : map.whereCondition = some w)
    (hgroup : map.groupBy = none) (hhaving : map.having = some h) (horder : map.orderBy = none) :
    Found map ⟨' ' :: map.fromFields ++ [' '], some (' ' :: w ++ tail k [(.having, h)]), strip map.selectFrom,
      none, none, none⟩ where
  full := ⟨by simp, by simp⟩
  selectFrom := rfl
  fromFields := rfl
  groupBy := by rw [hgroup]
  having := fun _ => rfl
  whereCondition := rfl
  size := by
    have hwords : PyText.words (' ' :: w ++ tail k [(.having, h)] ++ [' ']) =
        PyText.words w ++ clauseWords k [(.having, h)] := by
      rw [words_concat rfl, words_tail, words_cons rfl]
    have hkeyword := size_congr (lengths_words_hints .having _ (k.mem _) _ (capitals.mem _))
    have hwritten : written ⟨' ' :: map.fromFields ++ [' '], some (' ' :: w ++ tail k [(.having, h)]),
        strip map.selectFrom, none, none, none⟩ =
          [(.whereText, ' ' :: w ++ tail k [(.having, h)] ++ [' '])] := rfl
    rw [hwritten, SqlMap.rest, hwhere, hgroup, hhaving, horder]
    simp only [optional, Option.toList_some, Option.toList_none, List.map_cons, List.map_nil, List.nil_append,
      List.append_nil, clauseWords_append, clauseWords_cons, clauseWords_nil, hwords, size_append, hkeyword]
    omega
  order := fun _ => .inl rfl
  words := fun _ _ _ => ⟨keepHaving k, words_having hwhere hgroup hhaving horder _⟩
  divided := fun _ _ _ _ hlead hfrom hbehind =>
    divided_having hlead hmap hwhere hgroup hhaving horder hfrom hbehind _

/-- The query is divided, but where `HAVING` without `GROUP BY` comes before `ORDER BY`. -/
theorem exists_found (hmap : map.Plain) (hwhere : map.whereCondition = some w)
    (h : map.groupBy.isSome ∨ map.having = none ∨ map.orderBy = none) :
    ∃ found, divideSql (assemble k map) = some found ∧ Found map found := by
  have hnil : Opening [] := .inl rfl
  by_cases hboth : map.groupBy = none → map.having = none
  · obtain ⟨found, hfound, hholds⟩ := divideSql_holds (k := k) hnil hmap hwhere hboth
    exact ⟨found, hfound, found_of_holds hholds hmap hwhere hboth⟩
  · rw [Classical.not_imp] at hboth
    obtain ⟨hgroup, hhaving⟩ := hboth
    obtain ⟨text, hhaving⟩ := Option.ne_none_iff_exists'.1 hhaving
    have horder : map.orderBy = none := by
      rw [hgroup, hhaving] at h
      simpa using h
    exact ⟨_, divideSql_having hnil hmap hwhere hgroup hhaving horder,
      found_of_having hmap hwhere hgroup hhaving horder⟩

/-- The query was divided, so that it is not the one that raises. -/
theorem found_of_some (hmap : map.Plain) (hwhere : map.whereCondition = some w)
    (hfound : divideSql (assemble k map) = some found) :
    Found map found ∧ (map.groupBy.isSome ∨ map.having = none ∨ map.orderBy = none) := by
  have hcase : map.groupBy.isSome ∨ map.having = none ∨ map.orderBy = none := by
    by_contra hraises
    rw [not_or, not_or, Option.not_isSome_iff_eq_none] at hraises
    obtain ⟨hgroup, hhaving, horder⟩ := hraises
    have hnone : divideSql (assemble k map) = none := divideSql_having_orderBy (.inl rfl) hmap hwhere hgroup
      (Option.isSome_iff_ne_none.2 hhaving) (Option.isSome_iff_ne_none.2 horder)
    rw [hnone] at hfound
    cases hfound
  obtain ⟨found', hfound', hholds⟩ := exists_found (k := k) hmap hwhere hcase
  rw [hfound] at hfound'
  cases hfound'
  exact ⟨hholds, hcase⟩

/-- What is written on several lines is divided as it is on one. -/
theorem Divided.of_oneLine (h : Divided lead (oneLine fromFields) (oneLine behind) found) :
    ∃ after, divideSql (assembleBehind lead capitals (rendered fromFields found) ++ behind) = some after ∧
      after.stripped =
        { (found.behindLast (' ' :: oneLine behind)).stripped with fromFields := strip (oneLine fromFields) } := by
  obtain ⟨after, hafter, hstripped⟩ := h
  have hrendered : (rendered (oneLine fromFields) found).oneLine = (rendered fromFields found).oneLine := by
    simp [SqlMap.oneLine, rendered, oneLine_oneLine]
  have hline : oneLine (assembleBehind lead capitals (rendered (oneLine fromFields) found) ++ oneLine behind) =
      oneLine (assembleBehind lead capitals (rendered fromFields found) ++ behind) := by
    rw [oneLine_append, oneLine_append, oneLine_assembled, oneLine_assembled, hrendered, oneLine_oneLine]
  rw [divideSql_congr hline] at hafter
  exact ⟨after, hafter, hstripped⟩

end Found

end QueryHelper
