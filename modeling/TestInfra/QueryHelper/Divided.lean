import TestInfra.QueryHelper.DivideSql

set_option autoImplicit false

/-! # Assembled queries divided

What `_divide_sql` returns for a query that was assembled from its clauses. The stages of the division are taken one
after the other: the texts of `FROM`, `SELECT` and `WHERE`, what `GROUP BY` and `HAVING` cut off, and last what
`ORDER BY` does.

Two of the stages take for granted what other stages may not have found: with `GROUP BY` or `ORDER BY`, that there is
the text of a condition to cut, and with `ORDER BY` and `HAVING`, that `GROUP BY` has left the text of `HAVING`. -/

open PyText SplitText

namespace QueryHelper

/-! ## What is found -/

section Divided

variable {lead : Text} {k : Spelling} {map : SqlMap}

/-- The keywords found. -/
def foundIn (k : Spelling) (map : SqlMap) (clause : Clause) : Option Text :=
  if clause = .selectText ∨ clause ∈ map.clauses.map Prod.fst then some (k.word clause) else none

theorem mem_optional {clause : Clause} {text : Option Text} {c : Clause × Text} :
    c ∈ optional clause text ↔ c.1 = clause ∧ text = some c.2 := by
  obtain ⟨clause', text'⟩ := c
  cases text with
  | none => simp [optional]
  | some text => simp [optional, eq_comm]

@[simp] theorem foundIn_selectText : foundIn k map .selectText = some (k.word .selectText) := if_pos (.inl rfl)

@[simp] theorem foundIn_fromText : foundIn k map .fromText = some (k.word .fromText) :=
  if_pos (.inr List.mem_cons_self)

theorem mem_clauses_iff {clause : Clause} :
    clause ∈ map.clauses.map Prod.fst ↔ clause = .fromText ∨ clause = .whereText ∧ map.whereCondition.isSome ∨
      clause = .groupBy ∧ map.groupBy.isSome ∨ clause = .having ∧ map.having.isSome ∨
      clause = .orderBy ∧ map.orderBy.isSome := by
  have hoptional (a : Clause) (text : Option Text) :
      (∃ c ∈ optional a text, c.1 = clause) ↔ clause = a ∧ text.isSome := by
    constructor
    · rintro ⟨c, hc, rfl⟩
      obtain ⟨hclause, rfl⟩ := mem_optional.1 hc
      exact ⟨hclause, rfl⟩
    · rintro ⟨rfl, htext⟩
      obtain ⟨text, rfl⟩ := Option.isSome_iff_exists.1 htext
      exact ⟨(clause, text), mem_optional.2 ⟨rfl, rfl⟩, rfl⟩
  simp only [SqlMap.clauses, SqlMap.rest, List.map_cons, List.map_append, List.mem_cons, List.mem_append, List.mem_map,
    hoptional]

theorem foundIn_whereText : foundIn k map .whereText = map.whereCondition.map fun _ => k.word .whereText := by
  cases h : map.whereCondition <;> simp [foundIn, mem_clauses_iff, h]

theorem foundIn_groupBy : foundIn k map .groupBy = map.groupBy.map fun _ => k.word .groupBy := by
  cases h : map.groupBy <;> simp [foundIn, mem_clauses_iff, h]

theorem foundIn_having : foundIn k map .having = map.having.map fun _ => k.word .having := by
  cases h : map.having <;> simp [foundIn, mem_clauses_iff, h]

theorem foundIn_orderBy : foundIn k map .orderBy = map.orderBy.map fun _ => k.word .orderBy := by
  cases h : map.orderBy <;> simp [foundIn, mem_clauses_iff, h]

theorem kept_keywords : ∀ keyword ∈ keywords, ∀ c ∈ keyword, c ≠ ';' ∧ c ≠ '\n' := by
  have hall : ∀ keyword ∈ keywords, (keyword.all fun c => c ≠ ';' ∧ c ≠ '\n') = true := by decide +kernel
  exact fun keyword hkeyword c hc => of_decide_eq_true (List.all_eq_true.1 (hall keyword hkeyword) c hc)

/-- No character of an assembled query is removed. -/
theorem kept_assembled (hlead : Opening lead) (hmap : map.Plain) :
    ∀ c ∈ assembleBehind lead k map, c ≠ ';' ∧ c ≠ '\n' := by
  have hblank : ' ' ≠ ';' ∧ ' ' ≠ '\n' := by decide
  have htail : ∀ c ∈ tail k map.clauses, c ≠ ';' ∧ c ≠ '\n' := by
    intro c hc
    obtain ⟨clause, hclause, hc⟩ := List.mem_flatMap.1 hc
    rw [List.cons_append, List.mem_cons, List.mem_append, List.mem_cons] at hc
    rcases hc with rfl | hc | rfl | hc
    · exact hblank
    · exact kept_keywords _ (k.mem_keywords clause.1) c hc
    · exact hblank
    · exact (hmap.clauses clause hclause).kept c hc
  intro c hc
  rw [assembleBehind, List.append_assoc, List.append_assoc, List.mem_append, List.mem_append, List.cons_append,
    List.mem_cons, List.mem_append] at hc
  rcases hc with hc | hc | rfl | hc | hc
  · rcases hlead with rfl | ⟨text, rfl, htext⟩
    · cases hc
    · rcases List.mem_append.1 hc with hc | hc
      · exact htext.kept c hc
      · rwa [List.mem_singleton.1 hc]
  · exact kept_keywords _ (k.mem_keywords _) c hc
  · exact hblank
  · exact hmap.selectFrom.kept c hc
  · exact htail c hc

theorem free_subtable (hlead : Opening lead) (hmap : map.Plain) : Free subtable (assembleBehind lead k map) := by
  have hlooked : subtable ∈ lookedFor := List.mem_cons_self
  have hword (clause : Clause) : Free subtable (k.word clause) := by
    refine free_of_ne subtable hlooked _ (k.mem_keywords clause) fun heq => ?_
    have hmem := k.mem_keywords clause
    rw [← heq] at hmem
    revert hmem
    decide
  exact (free_assembled_iff hlooked hlead).2
    ⟨⟨hword _, hmap.selectFrom.free _ hlooked⟩, fun c hc => ⟨hword _, (hmap.clauses c hc).free _ hlooked⟩⟩

/-- What is left of the division of an assembled query: the keywords are known, and nothing is removed. -/
theorem divideSql_eq (hlead : Opening lead) (hmap : map.Plain) :
    divideSql (assembleBehind lead k map) = (do
      let fromFields ← fromFieldText (foundIn k map) (assembleBehind lead k map)
      let selectFrom ← selectFromText (foundIn k map) (assembleBehind lead k map)
      let whereCondition ← whereConditionText (foundIn k map) (assembleBehind lead k map)
      let divided ← divideGroup (foundIn k map) (assembleBehind lead k map)
        ⟨fromFields, whereCondition, selectFrom, none, none, none⟩
      divideOrder (foundIn k map) (assembleBehind lead k map) divided) := by
  have hkept := kept_assembled (k := k) hlead hmap
  have hfilter : ((assembleBehind lead k map).filter fun c => c ≠ ';').filter (fun c => c ≠ '\n') =
      assembleBehind lead k map := by
    rw [List.filter_filter, List.filter_eq_self]
    intro c hc
    simpa using (hkept c hc).symm
  have hfound : (fun clause => findStringType (assembleBehind lead k map) (hints clause)) = foundIn k map :=
    funext fun clause => findStringType_assembled hlead hmap clause
  unfold divideSql
  simp only [hfilter, hfound]

/-- The cut at the keyword of the next clause. -/
theorem cut_first {a text : Text} {clause : Clause} {post : List (Clause × Text)} (ha : Free (k.word clause) a)
    (hpost : ∀ c ∈ post, c.1 ≠ clause) (htexts : ∀ c ∈ (clause, text) :: post, Plain c.2) :
    before (some (k.word clause)) (a ++ tail k ((clause, text) :: post)) = some (a ++ [' ']) ∧
      behind (some (k.word clause)) (a ++ tail k ((clause, text) :: post)) = some (' ' :: text ++ tail k post) := by
  have hnil : ∀ c ∈ ([] : List (Clause × Text)), c.1 ≠ clause := by simp
  have hsplit := split_tail ha hnil hpost htexts
  rw [List.nil_append, tail_nil, List.append_nil] at hsplit
  constructor
  · rw [before, splitBy, hsplit]
    rfl
  · rw [behind, splitBy, hsplit]
    rfl

theorem before_of_free {sep text : Text} (h : Free sep text) : before (some sep) text = some text := by
  rw [before, splitBy, split_of_free h]
  rfl

/-- What is in front of the clauses holds no keyword but the first one. -/
theorem free_front (hlead : Opening lead) (hmap : map.Plain) {clause : Clause} (h : clause ≠ .selectText) :
    Free (k.word clause) (lead ++ k.word .selectText ++ ' ' :: map.selectFrom) :=
  (free_opening_iff (keywords_subset (k.mem_keywords clause)) hlead (k.mem_keywords _)).2
    ⟨k.free_word h (k.mem clause), hmap.selectFrom.free _ (keywords_subset (k.mem_keywords clause))⟩

theorem free_text {text : Text} (h : Plain text) (clause : Clause) : Free (k.word clause) (' ' :: text) :=
  free_blank_cons (keywords_subset (k.mem_keywords clause)) (h.free _ (keywords_subset (k.mem_keywords clause)))

theorem free_padded {text : Text} (h : Plain text) (clause : Clause) : Free (k.word clause) (' ' :: text ++ [' ']) :=
  free_concat_blank (keywords_subset (k.mem_keywords clause)) (free_text h clause)

theorem ne_of_mem_optional {clause other : Clause} {text : Option Text} (h : clause ≠ other) :
    ∀ c ∈ optional clause text, c.1 ≠ other := by
  intro c hc
  rw [(mem_optional.1 hc).1]
  exact h

theorem ne_of_mem_rest {clause : Clause} (hgroup : clause ≠ .groupBy) (hhaving : clause ≠ .having)
    (horder : clause ≠ .orderBy) : ∀ c ∈ map.rest, c.1 ≠ clause := by
  intro c hc
  rcases List.mem_append.1 hc with hc | hc
  · exact ne_of_mem_optional hgroup.symm c hc
  · rcases List.mem_append.1 hc with hc | hc
    · exact ne_of_mem_optional hhaving.symm c hc
    · exact ne_of_mem_optional horder.symm c hc

theorem ne_fromText : ∀ c ∈ optional .whereText map.whereCondition ++ map.rest, c.1 ≠ .fromText := by
  intro c hc
  rcases List.mem_append.1 hc with hc | hc
  · exact ne_of_mem_optional (by decide) c hc
  · exact ne_of_mem_rest (by decide) (by decide) (by decide) c hc

/-- The text behind the first two keywords of the clauses. -/
theorem behind_fromText (hlead : Opening lead) (hmap : map.Plain) :
    behind (some (k.word .fromText)) (assembleBehind lead k map) =
      some (' ' :: map.fromFields ++ tail k (optional .whereText map.whereCondition ++ map.rest)) :=
  (cut_first (free_front hlead hmap (by decide)) ne_fromText hmap.clauses).2

/-- The text of `SELECT`. -/
theorem selectFromText_assembled (hlead : Opening lead) (hmap : map.Plain) :
    selectFromText (foundIn k map) (assembleBehind lead k map) = some (strip map.selectFrom) := by
  have hkeyword := k.mem_keywords .selectText
  have hlooked := keywords_subset hkeyword
  have hnot : ∀ c ∈ map.clauses, c.1 ≠ .selectText := by
    rintro c hc heq
    have hmem : Clause.selectText ∈ map.clauses.map Prod.fst := List.mem_map.2 ⟨c, hc, heq⟩
    simp [mem_clauses_iff] at hmem
  have hfree : Free (k.word .selectText) (map.selectFrom ++ tail k map.clauses) :=
    (free_tail_iff hlooked).2 ⟨hmap.selectFrom.free _ hlooked,
      fun c hc => ⟨k.free_word (hnot c hc).symm (k.mem _), (hmap.clauses c hc).free _ hlooked⟩⟩
  have hbehind : behind (some (k.word .selectText)) (assembleBehind lead k map) =
      some (' ' :: map.selectFrom ++ tail k map.clauses) := by
    have hsplit : ∃ start, split (k.word .selectText) (assembleBehind lead k map) =
        [start, ' ' :: (map.selectFrom ++ tail k map.clauses)] := by
      rcases hlead with rfl | ⟨text, rfl, htext⟩
      · obtain ⟨hne, hdrop⟩ := free_dropLast _ hkeyword
        have heq : assembleBehind [] k map =
            [] ++ k.word .selectText ++ ' ' :: (map.selectFrom ++ tail k map.clauses) := by simp [assembleBehind]
        exact ⟨[], by rw [heq, split_append hne hdrop, split_of_free (free_blank_cons hlooked hfree)]⟩
      · have heq : assembleBehind (text ++ [' ']) k map =
            text ++ ' ' :: (k.word .selectText ++ ' ' :: (map.selectFrom ++ tail k map.clauses)) := by
          simp [assembleBehind]
        exact ⟨text ++ [' '], by rw [heq, split_keyword hkeyword (htext.free _ hlooked) hfree]⟩
    obtain ⟨start, hsplit⟩ := hsplit
    rw [behind, splitBy, hsplit]
    rfl
  have hbefore : before (some (k.word .fromText)) (' ' :: map.selectFrom ++ tail k map.clauses) =
      some (' ' :: map.selectFrom ++ [' ']) :=
    (cut_first (free_text hmap.selectFrom _) ne_fromText hmap.clauses).1
  have hsubtable := free_subtable (k := k) hlead hmap
  rw [selectFromText, if_neg hsubtable, foundIn_selectText, foundIn_fromText, hbehind, Option.bind_some, hbefore,
    Option.map_some, strip_concat rfl, strip_cons rfl]

/-! ## The texts found -/

/-- The text behind a keyword: a blank comes first, and another one is left of the next keyword. -/
def Padded (text found : Text) : Prop := found = ' ' :: text ∨ found = ' ' :: text ++ [' ']

/-- The clauses found are those of the query. -/
structure Holds (map found : SqlMap) : Prop where
  selectFrom : found.selectFrom = strip map.selectFrom
  fromFields : found.fromFields = ' ' :: map.fromFields ++ if map.whereCondition.isSome then [' '] else []
  whereCondition : Option.Rel Padded map.whereCondition found.whereCondition
  groupBy : Option.Rel Padded map.groupBy found.groupBy
  having : Option.Rel Padded map.having found.having
  orderBy : Option.Rel Padded map.orderBy found.orderBy

theorem Holds.rel_some {text : Option Text} {x found : Text} (h : text = some x) (hpadded : Padded x found) :
    Option.Rel Padded text (some found) := by
  rw [h]
  exact .some hpadded

theorem Holds.rel_none {text : Option Text} (h : text = none) : Option.Rel Padded text none := by
  rw [h]
  exact .none

theorem divideGroup_none (hgroup : map.groupBy = none) (sql : Text) (current : SqlMap) :
    divideGroup (foundIn k map) sql current = some current := by
  rw [divideGroup, foundIn_groupBy, hgroup]
  rfl

theorem divideOrder_none (horder : map.orderBy = none) (sql : Text) (current : SqlMap) :
    divideOrder (foundIn k map) sql current = some current := by
  rw [divideOrder, foundIn_orderBy, horder]
  rfl

theorem clauses_of_where {w : Text} (hwhere : map.whereCondition = some w) :
    map.clauses = (.fromText, map.fromFields) :: (.whereText, w) :: map.rest := by
  rw [SqlMap.clauses, hwhere]
  rfl

/-- What is behind a keyword of the query. -/
theorem behind_clause (hlead : Opening lead) (hmap : map.Plain) {clause : Clause} {text : Text}
    (pre : List (Clause × Text)) {post : List (Clause × Text)} (heq : map.clauses = pre ++ (clause, text) :: post)
    (hselect : clause ≠ .selectText) (hpre : ∀ c ∈ pre, c.1 ≠ clause) (hpost : ∀ c ∈ post, c.1 ≠ clause) :
    behind (some (k.word clause)) (assembleBehind lead k map) = some (' ' :: text ++ tail k post) := by
  have htexts := hmap.clauses
  rw [heq] at htexts
  rw [behind, splitBy, assembleBehind, heq, split_tail (free_front hlead hmap hselect) hpre hpost htexts]
  rfl

section Where

variable {w : Text} (hlead : Opening lead) (hmap : map.Plain) (hwhere : map.whereCondition = some w)
include hlead hmap hwhere

theorem fromFieldText_where :
    fromFieldText (foundIn k map) (assembleBehind lead k map) = some (' ' :: map.fromFields ++ [' ']) := by
  have htexts := hmap.clauses
  rw [clauses_of_where hwhere] at htexts
  have hfrom : Plain map.fromFields := htexts _ List.mem_cons_self
  have hcut : before (some (k.word .whereText)) (' ' :: map.fromFields ++ tail k ((.whereText, w) :: map.rest)) =
      some (' ' :: map.fromFields ++ [' ']) :=
    (cut_first (free_text hfrom _) (ne_of_mem_rest (by decide) (by decide) (by decide))
      fun c hc => htexts c (List.mem_cons_of_mem _ hc)).1
  rw [fromFieldText, foundIn_whereText, foundIn_fromText, hwhere, behind_fromText hlead hmap, hwhere]
  exact hcut

theorem whereConditionText_where :
    whereConditionText (foundIn k map) (assembleBehind lead k map) = some (some (' ' :: w ++ tail k map.rest)) := by
  have hbehind := behind_clause (k := k) hlead hmap [(.fromText, map.fromFields)] (clauses_of_where hwhere)
    (by decide) (by simp) (ne_of_mem_rest (by decide) (by decide) (by decide))
  have hsubtable := free_subtable (k := k) hlead hmap
  simp only [whereConditionText, foundIn_whereText, hwhere, Option.map_some, Option.isSome_some, if_true]
  rw [if_neg hsubtable, hbehind, Option.map_some]

/-- `GROUP BY`: the condition ends there, and what is behind it goes on up to `HAVING` or is still to be cut. -/
theorem divideGroup_some {g : Text} (hgroup : map.groupBy = some g) (fromFields selectFrom : Text) :
    divideGroup (foundIn k map) (assembleBehind lead k map)
        ⟨fromFields, some (' ' :: w ++ tail k map.rest), selectFrom, none, none, none⟩ =
      some ⟨fromFields, some (' ' :: w ++ [' ']), selectFrom,
        some (' ' :: g ++ if map.having.isSome then [' '] else tail k (optional .orderBy map.orderBy)), none,
        map.having.map fun h => ' ' :: h ++ tail k (optional .orderBy map.orderBy)⟩ := by
  have hrest : map.rest = (.groupBy, g) :: (optional .having map.having ++ optional .orderBy map.orderBy) := by
    rw [SqlMap.rest, hgroup]
    rfl
  have hclauses := clauses_of_where hwhere
  have htexts := hmap.clauses
  rw [hclauses, hrest] at htexts
  have hafter : ∀ c ∈ optional .having map.having ++ optional .orderBy map.orderBy, c.1 ≠ .groupBy := by
    intro c hc
    rcases List.mem_append.1 hc with hc | hc
    · exact ne_of_mem_optional (by decide) c hc
    · exact ne_of_mem_optional (by decide) c hc
  have hbehind := behind_clause (k := k) hlead hmap [(.fromText, map.fromFields), (.whereText, w)]
    (by rw [hclauses, hrest]; rfl) (by decide) (by simp) hafter
  have hw : Plain w := htexts (.whereText, w) (by simp)
  have hbefore : before (some (k.word .groupBy)) (' ' :: w ++ tail k map.rest) = some (' ' :: w ++ [' ']) := by
    rw [hrest]
    exact (cut_first (free_text hw _) hafter fun c hc => htexts c (by simp [hc])).1
  simp only [divideGroup, foundIn_groupBy, hgroup, Option.map_some, Option.isSome_some, if_true, hbehind, hbefore,
    Option.bind_eq_bind, Option.bind_some, foundIn_having]
  cases hhaving : map.having with
  | none => rfl
  | some h =>
      rw [hhaving] at htexts
      have hafter : ∀ c ∈ optional .orderBy map.orderBy, c.1 ≠ .having := ne_of_mem_optional (by decide)
      have hg : Plain g := htexts (.groupBy, g) (by simp)
      obtain ⟨hcutg, hcuth⟩ := cut_first (k := k) (free_text hg _) hafter fun c (hc : c ∈ (.having, h) :: _) =>
        htexts c (by simp [optional] at hc ⊢; tauto)
      have hlist : optional .having (some h) ++ optional .orderBy map.orderBy =
        (.having, h) :: optional .orderBy map.orderBy := rfl
      simp only [Option.map_some, Option.isSome_some, if_true, hlist, hcutg, hcuth, Option.bind_some]

theorem behind_orderBy {o : Text} (horder : map.orderBy = some o) :
    behind (some (k.word .orderBy)) (assembleBehind lead k map) = some (' ' :: o) := by
  have hclauses := clauses_of_where hwhere
  rw [SqlMap.rest, horder] at hclauses
  have heq : map.clauses = ((.fromText, map.fromFields) :: (.whereText, w) ::
      (optional .groupBy map.groupBy ++ optional .having map.having)) ++ (.orderBy, o) :: [] := by
    rw [hclauses]
    simp [optional]
  have hbehind := behind_clause (k := k) hlead hmap _ heq (by decide) ?_ (fun _ h => absurd h List.not_mem_nil)
  · rwa [tail_nil, List.append_nil] at hbehind
  · intro c hc
    rw [List.mem_cons, List.mem_cons, List.mem_append] at hc
    rcases hc with rfl | rfl | hc | hc
    · exact Clause.noConfusion
    · exact Clause.noConfusion
    · exact ne_of_mem_optional (by decide) c hc
    · exact ne_of_mem_optional (by decide) c hc

/-- `ORDER BY`: the texts that go on up to it are cut. -/
theorem divideOrder_some {o : Text} (horder : map.orderBy = some o) {current : SqlMap}
    {groupByText havingText whereText : Option Text}
    (hgroup : cutText (some (k.word .orderBy)) (current.groupBy.any (· ≠ []) && map.having.isNone) current.groupBy =
      some groupByText)
    (hhaving : cutText (some (k.word .orderBy)) map.having.isSome current.having = some havingText)
    (hcondition : cutText (some (k.word .orderBy)) true current.whereCondition = some whereText) :
    divideOrder (foundIn k map) (assembleBehind lead k map) current =
      some { current with
        whereCondition := whereText, groupBy := groupByText, having := havingText, orderBy := some (' ' :: o) } := by
  have hbehind := behind_orderBy (k := k) hlead hmap hwhere horder
  simp only [divideOrder, foundIn_orderBy, foundIn_having, horder, Option.map_some, Option.isSome_some, if_true,
    hbehind, Option.isSome_map, Option.isNone_map, hgroup, hhaving, hcondition, Option.bind_eq_bind, Option.bind_some]

end Where

/-- What is left of a text that goes on with `ORDER BY`. -/
theorem before_orderBy {text o : Text} (htext : Plain text) (ho : Plain o) :
    before (some (k.word .orderBy)) (' ' :: text ++ tail k [(.orderBy, o)]) = some (' ' :: text ++ [' ']) :=
  (cut_first (free_text htext _) (fun _ h => absurd h List.not_mem_nil) (by simpa using ho)).1

section Where

variable {w : Text} (hlead : Opening lead) (hmap : map.Plain) (hwhere : map.whereCondition = some w)
include hlead hmap hwhere

/-- The division up to the clauses behind the condition. -/
theorem divideSql_where :
    divideSql (assembleBehind lead k map) = (divideGroup (foundIn k map) (assembleBehind lead k map)
      ⟨' ' :: map.fromFields ++ [' '], some (' ' :: w ++ tail k map.rest), strip map.selectFrom, none, none, none⟩).bind
        (divideOrder (foundIn k map) (assembleBehind lead k map)) := by
  rw [divideSql_eq hlead hmap, fromFieldText_where hlead hmap hwhere, selectFromText_assembled hlead hmap,
    whereConditionText_where hlead hmap hwhere]
  rfl

omit hlead hmap in
theorem fromFields_where : ' ' :: map.fromFields ++ [' '] =
    ' ' :: map.fromFields ++ if map.whereCondition.isSome then [' '] else [] := by
  rw [hwhere]
  rfl

/-- With `GROUP BY` the clauses are found. -/
theorem divideSql_groupBy {g : Text} (hgroup : map.groupBy = some g) :
    ∃ found, divideSql (assembleBehind lead k map) = some found ∧ Holds map found := by
  have htexts := hmap.clauses
  rw [clauses_of_where hwhere, SqlMap.rest] at htexts
  have hw : Plain w := htexts (.whereText, w) (by simp)
  have hfrom := fromFields_where hwhere
  have hg : Plain g := htexts (.groupBy, g) (by simp [optional, hgroup])
  rw [divideSql_where hlead hmap hwhere, divideGroup_some hlead hmap hwhere hgroup, Option.bind_some]
  cases horder : map.orderBy with
  | none =>
      rw [divideOrder_none horder]
      refine ⟨_, rfl, rfl, hfrom, Holds.rel_some hwhere (.inr rfl), Holds.rel_some hgroup ?_, ?_,
        Holds.rel_none horder⟩
      · cases map.having with
        | none => exact .inl (List.append_nil _)
        | some h => exact .inr rfl
      · cases map.having with
        | none => exact .none
        | some h => exact .some (.inl (List.append_nil _))
  | some o =>
      have ho : Plain o := htexts (.orderBy, o) (by simp [optional, horder])
      have hcutw : cutText (some (k.word .orderBy)) true (some (' ' :: w ++ [' '])) = some (some (' ' :: w ++ [' '])) :=
        congrArg (Option.map some) (before_of_free (free_padded hw _))
      cases hhaving : map.having with
      | none =>
          have hcutg : cutText (some (k.word .orderBy)) true (some (' ' :: g ++ tail k [(.orderBy, o)])) =
            some (some (' ' :: g ++ [' '])) := congrArg (Option.map some) (before_orderBy hg ho)
          exact ⟨_, divideOrder_some hlead hmap hwhere horder (by rw [hhaving]; exact hcutg)
              (by rw [hhaving]; rfl) hcutw,
            rfl, hfrom, Holds.rel_some hwhere (.inr rfl), Holds.rel_some hgroup (.inr rfl), Holds.rel_none hhaving,
            Holds.rel_some horder (.inl rfl)⟩
      | some h =>
          have hh : Plain h := htexts (.having, h) (by simp [optional, hhaving])
          have hcuth : cutText (some (k.word .orderBy)) true (some (' ' :: h ++ tail k [(.orderBy, o)])) =
            some (some (' ' :: h ++ [' '])) := congrArg (Option.map some) (before_orderBy hh ho)
          exact ⟨_, divideOrder_some hlead hmap hwhere horder (by rw [hhaving]; rfl)
              (by rw [hhaving]; exact hcuth) hcutw,
            rfl, hfrom, Holds.rel_some hwhere (.inr rfl), Holds.rel_some hgroup (.inr rfl),
            Holds.rel_some hhaving (.inr rfl), Holds.rel_some horder (.inl rfl)⟩

/-- Without `GROUP BY` and `HAVING` they are, too. -/
theorem divideSql_noGroup (hgroup : map.groupBy = none) (hhaving : map.having = none) :
    ∃ found, divideSql (assembleBehind lead k map) = some found ∧ Holds map found := by
  have htexts := hmap.clauses
  rw [clauses_of_where hwhere, SqlMap.rest] at htexts
  have hw : Plain w := htexts (.whereText, w) (by simp)
  have hfrom := fromFields_where hwhere
  rw [divideSql_where hlead hmap hwhere, divideGroup_none hgroup, Option.bind_some, SqlMap.rest, hgroup, hhaving]
  cases horder : map.orderBy with
  | none =>
      rw [divideOrder_none horder]
      exact ⟨_, rfl, rfl, hfrom, Holds.rel_some hwhere (.inl (List.append_nil _)), Holds.rel_none hgroup,
        Holds.rel_none hhaving, Holds.rel_none horder⟩
  | some o =>
      have ho : Plain o := htexts (.orderBy, o) (by simp [optional, horder])
      have hcutw : cutText (some (k.word .orderBy)) true (some (' ' :: w ++ tail k [(.orderBy, o)])) =
        some (some (' ' :: w ++ [' '])) := congrArg (Option.map some) (before_orderBy hw ho)
      exact ⟨_, divideOrder_some hlead hmap hwhere horder rfl (by rw [hhaving]; rfl) hcutw, rfl, hfrom,
        Holds.rel_some hwhere (.inr rfl), Holds.rel_none hgroup, Holds.rel_none hhaving,
        Holds.rel_some horder (.inl rfl)⟩

/-- The clauses are found where `HAVING` comes with `GROUP BY`. -/
theorem divideSql_holds (h : map.groupBy = none → map.having = none) :
    ∃ found, divideSql (assembleBehind lead k map) = some found ∧ Holds map found := by
  cases hgroup : map.groupBy with
  | none => exact divideSql_noGroup hlead hmap hwhere hgroup (h hgroup)
  | some g => exact divideSql_groupBy hlead hmap hwhere hgroup

/-- `HAVING` without `GROUP BY` stays in the condition. -/
theorem divideSql_having {h : Text} (hgroup : map.groupBy = none) (hhaving : map.having = some h)
    (horder : map.orderBy = none) :
    divideSql (assembleBehind lead k map) =
      some ⟨' ' :: map.fromFields ++ [' '], some (' ' :: w ++ tail k [(.having, h)]), strip map.selectFrom,
        none, none, none⟩ := by
  rw [divideSql_where hlead hmap hwhere, divideGroup_none hgroup, Option.bind_some, SqlMap.rest, hgroup, hhaving,
    horder, divideOrder_none horder]
  rfl

/-- With `ORDER BY` it raises: no text of `HAVING` was found, and that is to be cut. -/
theorem divideSql_having_orderBy (hgroup : map.groupBy = none) (hhaving : map.having.isSome)
    (horder : map.orderBy.isSome) : divideSql (assembleBehind lead k map) = none := by
  obtain ⟨o, horder⟩ := Option.isSome_iff_exists.1 horder
  have hbehind := behind_orderBy (k := k) hlead hmap hwhere horder
  rw [divideSql_where hlead hmap hwhere, divideGroup_none hgroup, Option.bind_some, divideOrder, foundIn_orderBy,
    horder]
  simp only [Option.map_some, Option.isSome_some, if_true, hbehind, Option.bind_eq_bind, Option.bind_some,
    foundIn_having, Option.isSome_map, hhaving]
  rfl

end Where

/-- Without a condition, and with nothing behind it, the clauses are found. -/
theorem divideSql_noWhere (hlead : Opening lead) (hmap : map.Plain) (hwhere : map.whereCondition = none)
    (hgroup : map.groupBy = none) (hhaving : map.having = none) (horder : map.orderBy = none) :
    ∃ found, divideSql (assembleBehind lead k map) = some found ∧ Holds map found := by
  have hbehind := behind_fromText (k := k) hlead hmap
  have hsubtable := free_subtable (k := k) hlead hmap
  have hfrom : fromFieldText (foundIn k map) (assembleBehind lead k map) = some (' ' :: map.fromFields) := by
    rw [fromFieldText, foundIn_whereText, hwhere, foundIn_fromText]
    rw [if_neg (by simp), if_neg hsubtable, hbehind, SqlMap.rest, hwhere, hgroup, hhaving, horder]
    exact congrArg some (List.append_nil _)
  have hcondition : whereConditionText (foundIn k map) (assembleBehind lead k map) = some none := by
    rw [whereConditionText, foundIn_whereText, hwhere]
    rfl
  rw [divideSql_eq hlead hmap, hfrom, selectFromText_assembled hlead hmap, hcondition]
  simp only [Option.bind_eq_bind, Option.bind_some]
  rw [divideGroup_none hgroup, Option.bind_some, divideOrder_none horder]
  exact ⟨_, rfl, rfl, by rw [hwhere]; exact (List.append_nil _).symm, Holds.rel_none hwhere, Holds.rel_none hgroup,
    Holds.rel_none hhaving, Holds.rel_none horder⟩

/-- Without a condition it raises where there is something behind it: no text of the condition was found, and that is to
    be cut. -/
theorem divideSql_noWhere_raises (hlead : Opening lead) (hmap : map.Plain) (hwhere : map.whereCondition = none)
    (h : map.groupBy.isSome ∨ map.orderBy.isSome) : divideSql (assembleBehind lead k map) = none := by
  have hcondition : whereConditionText (foundIn k map) (assembleBehind lead k map) = some none := by
    rw [whereConditionText, foundIn_whereText, hwhere]
    rfl
  have hraises (fromFields selectFrom : Text) :
      (divideGroup (foundIn k map) (assembleBehind lead k map) ⟨fromFields, none, selectFrom, none, none, none⟩).bind
        (divideOrder (foundIn k map) (assembleBehind lead k map)) = none := by
    cases hgroup : map.groupBy with
    | none =>
        have horder : map.orderBy.isSome := h.resolve_left (by rw [hgroup]; exact Bool.false_ne_true)
        rw [divideGroup_none hgroup, Option.bind_some, divideOrder, foundIn_orderBy, Option.isSome_map, if_pos horder]
        simp [cutText]
    | some g =>
        rw [divideGroup, foundIn_groupBy, hgroup]
        simp
  rw [divideSql_eq hlead hmap, hcondition, selectFromText_assembled hlead hmap]
  cases fromFieldText (foundIn k map) (assembleBehind lead k map) with
  | none => rfl
  | some fromFields => exact hraises fromFields (strip map.selectFrom)

end Divided

/-! ## Division after assembly -/

/-- The texts without the white space around them. -/
def SqlMap.stripped (map : SqlMap) : SqlMap :=
  ⟨strip map.fromFields, map.whereCondition.map strip, strip map.selectFrom, map.groupBy.map strip,
    map.orderBy.map strip, map.having.map strip⟩

theorem Padded.strip_eq {text found : Text} (h : Padded text found) : strip found = strip text := by
  rcases h with rfl | rfl
  · exact strip_cons rfl text
  · rw [strip_concat rfl, strip_cons rfl]

theorem map_strip_eq {text found : Option Text} (h : Option.Rel Padded text found) :
    found.map strip = text.map strip := by
  cases h with
  | some h => exact congrArg some h.strip_eq
  | none => rfl

theorem Holds.stripped_eq {map found : SqlMap} (h : Holds map found) : found.stripped = map.stripped := by
  have hfrom : strip found.fromFields = strip map.fromFields := by
    rw [h.fromFields]
    split
    · rw [strip_concat rfl, strip_cons rfl]
    · rw [List.append_nil, strip_cons rfl]
  rw [SqlMap.stripped, SqlMap.stripped, h.selectFrom, strip_strip, hfrom, map_strip_eq h.whereCondition,
    map_strip_eq h.groupBy, map_strip_eq h.having, map_strip_eq h.orderBy]

/-- The query assembled from the clauses is divided into them: the texts that were given, and `None` for the others. -/
def Returned (k : Spelling) (map : SqlMap) : Prop :=
  (divideSql (assemble k map)).map SqlMap.stripped = some map.stripped

theorem returned_of_holds {k : Spelling} {map : SqlMap}
    (h : ∃ found, divideSql (assembleBehind [] k map) = some found ∧ Holds map found) : Returned k map := by
  obtain ⟨found, hfound, hholds⟩ := h
  rw [Returned, assemble, hfound, Option.map_some, hholds.stripped_eq]

theorem having_eq_none {map : SqlMap} (hhaving : map.having.isSome → map.groupBy.isSome) (hgroup : map.groupBy = none) :
    map.having = none := by
  by_contra hsome
  have hsome' := hhaving (Option.isSome_iff_ne_none.2 hsome)
  rw [hgroup] at hsome'
  cases hsome'

/-- **What `_divide_sql` gets right**: a query whose `HAVING` comes with `GROUP BY` is divided into its clauses if and
    only if it has `WHERE`, or neither `GROUP BY` nor `ORDER BY`. -/
theorem returned_iff (k : Spelling) (map : SqlMap) (hmap : map.Plain)
    (hhaving : map.having.isSome → map.groupBy.isSome) :
    Returned k map ↔ map.whereCondition.isSome ∨ map.groupBy = none ∧ map.orderBy = none := by
  have hnil : Opening [] := .inl rfl
  cases hwhere : map.whereCondition with
  | none =>
      rw [Option.isSome_none, Bool.false_eq_true, false_or]
      constructor
      · intro h
        by_contra hsome
        have hraises : divideSql (assemble k map) = none := by
          refine divideSql_noWhere_raises hnil hmap hwhere ?_
          by_contra hnone
          rw [not_or, Option.not_isSome_iff_eq_none, Option.not_isSome_iff_eq_none] at hnone
          exact hsome hnone
        rw [Returned, hraises] at h
        cases h
      · rintro ⟨hgroup, horder⟩
        have hnone := having_eq_none hhaving hgroup
        exact returned_of_holds (divideSql_noWhere hnil hmap hwhere hgroup hnone horder)
  | some w =>
      exact iff_of_true (returned_of_holds (divideSql_holds hnil hmap hwhere (having_eq_none hhaving))) (.inl rfl)

/-- The keywords in capitals. -/
def capitals : Spelling where
  word
    | .selectText => "SELECT".toList
    | .fromText => "FROM".toList
    | .whereText => "WHERE".toList
    | .groupBy => "GROUP BY".toList
    | .having => "HAVING".toList
    | .orderBy => "ORDER BY".toList
  mem clause := by cases clause <;> decide

instance (text : Text) : Decidable (Plain text) :=
  decidable_of_iff ((∀ word ∈ lookedFor, Free word text) ∧ (text.all fun c => c ≠ ';' ∧ c ≠ '\n') = true)
    ⟨fun h => ⟨h.1, fun c hc => of_decide_eq_true (List.all_eq_true.1 h.2 c hc)⟩,
      fun h => ⟨h.free, List.all_eq_true.2 fun c hc => decide_eq_true (h.kept c hc)⟩⟩

instance (map : SqlMap) : Decidable map.Plain :=
  decidable_of_iff (QueryHelper.Plain map.selectFrom ∧ ∀ clause ∈ map.clauses, QueryHelper.Plain clause.2)
    ⟨fun h => ⟨h.1, h.2⟩, fun h => ⟨h.selectFrom, h.clauses⟩⟩

/-- `SELECT name FROM hotels WHERE stars > 3 ORDER BY name`. -/
def sortedNames : SqlMap := ⟨"hotels".toList, some "stars > 3".toList, "name".toList, none, some "name".toList, none⟩

theorem returned_sortedNames : Returned capitals sortedNames :=
  (returned_iff capitals sortedNames (by decide +kernel) (fun h => (Bool.false_ne_true h).elim)).2 (.inl rfl)

/-- Without the condition, `SELECT name FROM hotels ORDER BY name` is not divided. -/
theorem not_returned : ¬ ∀ (k : Spelling) (map : SqlMap), map.Plain → (map.having.isSome → map.groupBy.isSome) →
    Returned k map := by
  intro h
  have hraises : divideSql (assemble capitals { sortedNames with whereCondition := none }) = none := by decide +kernel
  have hreturned := h capitals { sortedNames with whereCondition := none } (by decide +kernel)
    fun h => (Bool.false_ne_true h).elim
  rw [Returned, hraises] at hreturned
  cases hreturned

end QueryHelper
