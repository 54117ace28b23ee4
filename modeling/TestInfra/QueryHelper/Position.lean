import TestInfra.Lib.Cut
import TestInfra.Lib.Parens

set_option autoImplicit false

/-! # `POSITION` in SQL

`convert_sql_position_func` (`lib/couchbase_helper/query_helper.py`) writes `POSITION( a ? b )` as
`(POSITION( b IN a ) -1 )`, one call after the other. It takes the second argument up to the first closing parenthesis,
with one more where something was opened in it. What is behind that parenthesis comes to stand behind the `-1`. -/

open PyText SplitText

namespace QueryHelper

/-! ## The code -/

/-- The body of the loop; `none` is the `IndexError` where a text was not cut in two. -/
def positionTurn (tempSql : Text) : Option Text :=
  let left := upTo '?' tempSql
  let right := past '?' tempSql
  (cutLast "POSITION(".toList left).bind fun (headOfQuery, targetString) =>
    if ')' ∈ right then
      let subString := upTo ')' right
      let endOfQuery := past ')' right
      if '(' ∈ subString then
        some (headOfQuery ++ "(POSITION( ".toList ++ (subString ++ " )".toList) ++ " IN ".toList ++ targetString ++
          ") -1".toList ++ endOfQuery)
      else
        some (headOfQuery ++ "(POSITION( ".toList ++ subString ++ " IN ".toList ++ targetString ++ ") -1".toList ++
          (" ) ".toList ++ endOfQuery))
    else none

/-- `while "?" in temp_sql`, for so many turns at most. -/
def convertMost : ℕ → Text → Option Text
  | 0, tempSql => some tempSql
  | turns + 1, tempSql => if '?' ∈ tempSql then (positionTurn tempSql).bind (convertMost turns) else some tempSql

/-- `convert_sql_position_func`. -/
def convertSqlPositionFunc (tempSql : Text) : Option Text := convertMost (tempSql.count '?') tempSql

/-! ## The loop -/

variable {text text' : Text}

/-- Each turn takes a question mark away. -/
theorem count_of_positionTurn (h : positionTurn text = some text') (hmem : '?' ∈ text) :
    text'.count '?' + 1 = text.count '?' := by
  have hwhole := congrArg (List.count '?') (eq_upTo_append_past hmem)
  rw [List.count_append, List.count_cons_self] at hwhole
  rw [positionTurn] at h
  obtain ⟨⟨headOfQuery, targetString⟩, hcut, h⟩ := Option.bind_eq_some_iff.1 h
  have hleft := congrArg (List.count '?') (eq_of_cutLast hcut)
  rw [List.count_append, List.count_append, show "POSITION(".toList.count '?' = 0 from rfl] at hleft
  generalize past '?' text = right at h hwhole
  simp only at h
  split at h
  · next hclose =>
      have hright := congrArg (List.count '?') (eq_upTo_append_past hclose)
      rw [List.count_append, List.count_cons_of_ne (by decide)] at hright
      split at h
      all_goals
        obtain rfl := Option.some.inj h
        simp only [List.count_append, show "(POSITION( ".toList.count '?' = 0 from rfl,
          show " )".toList.count '?' = 0 from rfl, show " IN ".toList.count '?' = 0 from rfl,
          show ") -1".toList.count '?' = 0 from rfl, show " ) ".toList.count '?' = 0 from rfl]
        omega
  · cases h

theorem convertMost_of_not_mem (h : '?' ∉ text) (turns : ℕ) : convertMost turns text = some text := by
  cases turns with
  | zero => rfl
  | succ turns => rw [convertMost, if_neg h]

/-- More turns change nothing: by then the loop has ended. -/
theorem convertMost_eq {turns : ℕ} (h : text.count '?' ≤ turns) :
    convertMost turns text = convertSqlPositionFunc text := by
  induction turns generalizing text with
  | zero => rw [convertSqlPositionFunc, Nat.le_zero.1 h]
  | succ turns ih =>
      by_cases hmem : '?' ∈ text
      · obtain ⟨count, hcount⟩ : ∃ count, text.count '?' = count + 1 :=
          ⟨text.count '?' - 1, (Nat.succ_pred_eq_of_pos (List.count_pos_iff.2 hmem)).symm⟩
        rw [convertSqlPositionFunc, hcount, convertMost, convertMost, if_pos hmem, if_pos hmem]
        cases hturn : positionTurn text with
        | none => rfl
        | some text' =>
            have hless := count_of_positionTurn hturn hmem
            rw [Option.bind_some, Option.bind_some, ih (by omega), convertSqlPositionFunc,
              show text'.count '?' = count by omega]
      · rw [convertMost_of_not_mem hmem, convertSqlPositionFunc, convertMost_of_not_mem hmem]

theorem convertSqlPositionFunc_of_not_mem (h : '?' ∉ text) : convertSqlPositionFunc text = some text :=
  convertMost_of_not_mem h _

theorem convertSqlPositionFunc_of_mem (h : '?' ∈ text) :
    convertSqlPositionFunc text = (positionTurn text).bind convertSqlPositionFunc := by
  have hmost := convertMost_eq (Nat.le_succ (text.count '?'))
  rw [convertMost, if_pos h] at hmost
  rw [← hmost]
  cases hturn : positionTurn text with
  | none => rfl
  | some text' =>
      have hless := count_of_positionTurn hturn h
      rw [Option.bind_some, Option.bind_some, convertMost_eq (by omega)]

/-- A turn on a call: the second argument goes up to its first closing parenthesis. -/
theorem positionTurn_call {before target sub behind : Text} (hbefore : '?' ∉ before) (htarget : '?' ∉ target)
    (hfree : Free "POSITION(".toList target) (hsub : ')' ∉ sub) :
    positionTurn (before ++ "POSITION(".toList ++ target ++ '?' :: (sub ++ ')' :: behind)) =
      some (if '(' ∈ sub then
        before ++ "(POSITION( ".toList ++ (sub ++ " )".toList) ++ " IN ".toList ++ target ++ ") -1".toList ++ behind
      else before ++ "(POSITION( ".toList ++ sub ++ " IN ".toList ++ target ++ ") -1".toList ++
        (" ) ".toList ++ behind)) := by
  have hleft : '?' ∉ before ++ "POSITION(".toList ++ target := by
    simp only [List.mem_append, not_or]
    exact ⟨⟨hbefore, by decide⟩, htarget⟩
  have hright : ')' ∈ sub ++ ')' :: behind := List.mem_append_right sub List.mem_cons_self
  rw [positionTurn, upTo_append hleft, past_append hleft, cutLast_append (by decide) (by decide) hfree,
    Option.bind_some]
  simp only [if_pos hright, upTo_append hsub, past_append hsub]
  split <;> rfl

end QueryHelper
