import TestInfra.QueryHelper.Position

set_option autoImplicit false

/-! # Calls of `POSITION`

SQL with calls `POSITION( a ? b )`, where `b` may hold calls again, and when `convert_sql_position_func` writes it as it
is meant. It does if there is nothing but white space behind the first closing parenthesis of each second argument; and
where no call stands in another one, it does exactly if that part and the text written before it may change places
(`convertSqlPositionFunc_right`). -/

open PyText SplitText

namespace QueryHelper

inductive Sql where
  | nil
  | char (c : Char) (rest : Sql)
  | call (target : Text) (sub rest : Sql)

/-- The call, and what is behind it. -/
def called (target sub behind : Text) : Text :=
  "POSITION(".toList ++ target ++ '?' :: (sub ++ ')' :: behind)

/-- The call as it is meant, up to spacing. -/
def meant (target sub : Text) : Text := "(POSITION( ".toList ++ sub ++ " IN ".toList ++ target ++ " ) -1 )".toList

/-- What is written behind the second argument. -/
def moved (target : Text) : Text := " IN ".toList ++ target ++ ") -1".toList

/-- The texts that may stand before the question mark of a call. -/
def IsTarget (target : Text) : Prop := '?' ∉ target ∧ Free "POSITION(".toList target

/-- The call as it is written. -/
def turned (target sub : Text) : Text :=
  if ')' ∈ sub then "(POSITION( ".toList ++ (upTo ')' sub ++ " )".toList) ++ moved target ++ past ')' sub ++ ")".toList
  else "(POSITION( ".toList ++ sub ++ moved target ++ " ) ".toList

namespace Sql

def raw : Sql → Text
  | nil => []
  | char c rest => c :: rest.raw
  | call target sub rest => called target sub.raw rest.raw

def expected : Sql → Text
  | nil => []
  | char c rest => c :: rest.expected
  | call target sub rest => meant target sub.expected ++ rest.expected

/-- Each question mark is the one of a call, and the second arguments are balanced. -/
def Valid : Sql → Prop
  | nil => True
  | char c rest => c ≠ '?' ∧ rest.Valid
  | call target sub rest =>
      IsTarget target ∧ IsBalanced sub.raw ∧ sub.Valid ∧ rest.Valid

/-- Behind the first closing parenthesis of each second argument there is nothing but white space. -/
def Fits : Sql → Prop
  | nil => True
  | char _ rest => rest.Fits
  | call _ sub rest => (∀ c ∈ past ')' sub.raw, isSpace c = true) ∧ sub.Fits ∧ rest.Fits

/-- No call stands in another one. -/
def Flat : Sql → Prop
  | nil => True
  | char _ rest => rest.Flat
  | call _ sub rest => '?' ∉ sub.raw ∧ rest.Flat

/-- What is behind the first closing parenthesis of a second argument may change places with what is written before
    it. -/
def Commutes : Sql → Prop
  | nil => True
  | char _ rest => rest.Commutes
  | call target sub rest =>
      lexemes (moved target ++ past ')' sub.raw) = lexemes (past ')' sub.raw ++ moved target) ∧ rest.Commutes

/-- The function returns, and its text is the one that is meant up to spacing; it is balanced if the first text is. -/
def Right (sql : Sql) : Prop :=
  ∃ out, convertSqlPositionFunc sql.raw = some out ∧ lexemes out = lexemes sql.expected ∧
    (IsBalanced sql.raw → IsBalanced out)

/-! ## Building -/

def chars : Text → Sql → Sql
  | [], sql => sql
  | c :: text, sql => char c (chars text sql)

def append : Sql → Sql → Sql
  | nil, other => other
  | char c rest, other => char c (rest.append other)
  | call target sub rest, other => call target sub (rest.append other)

variable {sql sub rest : Sql} {target before : Text}

theorem called_append (target sub behind other : Text) :
    called target sub (behind ++ other) = called target sub behind ++ other := by
  unfold called
  rw [List.append_assoc _ _ other, List.cons_append, List.append_assoc sub, List.cons_append]

theorem mem_called (target sub behind : Text) : '?' ∈ called target sub behind :=
  List.mem_append_right _ List.mem_cons_self

theorem mem_close_called (target sub behind : Text) : ')' ∈ called target sub behind :=
  List.mem_append_right _ (List.mem_cons_of_mem _ (List.mem_append_right sub List.mem_cons_self))

theorem raw_chars (text : Text) (sql : Sql) : (chars text sql).raw = text ++ sql.raw := by
  induction text with
  | nil => rfl
  | cons c text ih => rw [chars, raw, ih]; rfl

theorem expected_chars (text : Text) (sql : Sql) : (chars text sql).expected = text ++ sql.expected := by
  induction text with
  | nil => rfl
  | cons c text ih => rw [chars, expected, ih]; rfl

theorem valid_chars {text : Text} (h : '?' ∉ text) (hsql : sql.Valid) : (chars text sql).Valid := by
  induction text with
  | nil => exact hsql
  | cons c text ih =>
      rw [List.mem_cons, not_or] at h
      exact ⟨Ne.symm h.1, ih h.2⟩

theorem fits_chars (text : Text) (hsql : sql.Fits) : (chars text sql).Fits := by
  induction text with
  | nil => exact hsql
  | cons c text ih => exact ih

theorem raw_append (sql other : Sql) : (sql.append other).raw = sql.raw ++ other.raw := by
  induction sql with
  | nil => rfl
  | char c rest ih => rw [append, raw, ih]; rfl
  | call target sub rest _ ih => rw [append, raw, ih, raw, called_append]

theorem expected_append (sql other : Sql) : (sql.append other).expected = sql.expected ++ other.expected := by
  induction sql with
  | nil => rfl
  | char c rest ih => rw [append, expected, ih]; rfl
  | call target sub rest _ ih => rw [append, expected, ih, expected, List.append_assoc]

theorem valid_append {other : Sql} (h : sql.Valid) (hother : other.Valid) : (sql.append other).Valid := by
  induction sql with
  | nil => exact hother
  | char c rest ih => exact ⟨h.1, ih h.2⟩
  | call target sub rest _ ih => exact ⟨h.1, h.2.1, h.2.2.1, ih h.2.2.2⟩

theorem fits_append {other : Sql} (h : sql.Fits) (hother : other.Fits) : (sql.append other).Fits := by
  induction sql with
  | nil => exact hother
  | char c rest ih => exact ih h
  | call target sub rest _ ih => exact ⟨h.1, h.2.1, ih h.2.2⟩

/-- A text without a question mark has no call. -/
theorem expected_of_not_mem (h : '?' ∉ sql.raw) : sql.expected = sql.raw := by
  induction sql with
  | nil => rfl
  | char c rest ih =>
      rw [raw, List.mem_cons, not_or] at h
      rw [expected, raw, ih h.2]
  | call target sub rest _ _ => exact absurd (mem_called target sub.raw rest.raw) h

/-- Without a closing parenthesis there is no call either. -/
theorem not_mem_of_not_mem_close (hvalid : sql.Valid) (h : ')' ∉ sql.raw) : '?' ∉ sql.raw := by
  induction sql with
  | nil => exact List.not_mem_nil
  | char c rest ih =>
      rw [raw, List.mem_cons, not_or] at h ⊢
      exact ⟨Ne.symm hvalid.1, ih hvalid.2 h.2⟩
  | call target sub rest _ _ => exact absurd (mem_close_called target sub.raw rest.raw) h

/-- The first call. -/
theorem exists_call (hvalid : sql.Valid) (h : '?' ∈ sql.raw) :
    ∃ before target sub rest, sql = chars before (call target sub rest) ∧ '?' ∉ before := by
  induction sql with
  | nil => exact absurd h List.not_mem_nil
  | char c rest ih =>
      rw [raw] at h
      obtain ⟨before, target, sub, rest', rfl, hbefore⟩ :=
        ih hvalid.2 ((List.mem_cons.1 h).resolve_left (Ne.symm hvalid.1))
      refine ⟨c :: before, target, sub, rest', rfl, ?_⟩
      rw [List.mem_cons, not_or]
      exact ⟨Ne.symm hvalid.1, hbefore⟩
  | call target sub rest _ _ => exact ⟨[], target, sub, rest, rfl, List.not_mem_nil⟩

theorem valid_of_chars {text : Text} (h : (chars text sql).Valid) : sql.Valid := by
  induction text with
  | nil => exact h
  | cons c text ih => exact ih h.2

theorem fits_of_chars {text : Text} (h : (chars text sql).Fits) : sql.Fits := by
  induction text with
  | nil => exact h
  | cons c text ih => exact ih h

end Sql

/-! ## A turn -/

variable {target sub before : Text}

/-- A turn on the first call. -/
theorem positionTurn_called (hbefore : '?' ∉ before) (htarget : IsTarget target) (hsub : IsBalanced sub)
    (behind : Text) :
    positionTurn (before ++ called target sub behind) = some (before ++ (turned target sub ++ behind)) := by
  by_cases hclose : ')' ∈ sub
  · have hturn := @positionTurn_call _ _ _ (past ')' sub ++ ')' :: behind) hbefore htarget.1 htarget.2
      (not_mem_upTo ')' sub)
    have hopen : '(' ∈ upTo ')' sub := by
      rw [eq_upTo_append_past hclose] at hsub
      exact hsub.mem_open (not_mem_upTo ')' sub)
    have htext : before ++ called target sub behind
        = before ++ "POSITION(".toList ++ target ++
            '?' :: (upTo ')' sub ++ ')' :: (past ')' sub ++ ')' :: behind)) := by
      conv_lhs => rw [eq_upTo_append_past hclose]
      unfold called
      simp only [List.append_assoc, List.cons_append]
    rw [htext, hturn, if_pos hopen]
    unfold turned moved
    rw [if_pos hclose]
    simp only [List.append_assoc]
    rfl
  · have hturn := @positionTurn_call _ _ _ behind hbefore htarget.1 htarget.2 hclose
    have htext : before ++ called target sub behind
        = before ++ "POSITION(".toList ++ target ++ '?' :: (sub ++ ')' :: behind) := by
      unfold called
      simp only [List.append_assoc]
    rw [htext, hturn, if_neg (hsub.not_mem_open hclose)]
    unfold turned moved
    rw [if_neg hclose]
    simp only [List.append_assoc]

theorem convertSqlPositionFunc_called (hbefore : '?' ∉ before) (htarget : IsTarget target) (hsub : IsBalanced sub)
    (behind : Text) :
    convertSqlPositionFunc (before ++ called target sub behind)
      = convertSqlPositionFunc (before ++ (turned target sub ++ behind)) := by
  rw [convertSqlPositionFunc_of_mem (List.mem_append_right before (Sql.mem_called target sub behind)),
    positionTurn_called hbefore htarget hsub, Option.bind_some]

theorem not_mem_turned (htarget : '?' ∉ target) (hsub : '?' ∉ sub) : '?' ∉ turned target sub := by
  have hupTo : '?' ∉ upTo ')' sub := fun h => hsub ((List.takeWhile_prefix _).subset h)
  have hpast : '?' ∉ past ')' sub := fun h => hsub ((List.dropWhile_suffix _).subset (List.mem_of_mem_tail h))
  unfold turned moved
  split
  all_goals
    simp only [List.mem_append, not_or]
    and_intros
    all_goals first | assumption | decide

/-! ## Calls that are not nested -/

namespace Sql

/-- The text with each call as it is written. -/
def coded : Sql → Text
  | nil => []
  | char c rest => c :: rest.coded
  | call target sub rest => turned target sub.raw ++ rest.coded

theorem convertSqlPositionFunc_flat {sql : Sql} (hvalid : sql.Valid) (hflat : sql.Flat) (hbefore : '?' ∉ before) :
    convertSqlPositionFunc (before ++ sql.raw) = some (before ++ sql.coded) := by
  induction sql generalizing before with
  | nil => exact convertSqlPositionFunc_of_not_mem (by rwa [raw, List.append_nil])
  | char c rest ih =>
      have hc : '?' ∉ before ++ [c] := by
        rw [List.mem_append, List.mem_singleton, not_or]
        exact ⟨hbefore, Ne.symm hvalid.1⟩
      have hrest := ih hvalid.2 hflat hc
      rwa [List.append_assoc, List.append_assoc] at hrest
  | call target sub rest _ ih =>
      have hturned : '?' ∉ before ++ turned target sub.raw := by
        rw [List.mem_append, not_or]
        exact ⟨hbefore, not_mem_turned hvalid.1.1 hflat.1⟩
      have hrest := ih hvalid.2.2.2 hflat.2 hturned
      rw [raw, convertSqlPositionFunc_called hbefore hvalid.1 hvalid.2.1, ← List.append_assoc, hrest, coded,
        List.append_assoc]

end Sql

/-- The pieces that are written and meant begin and end where lexemes do. -/
theorem exists_turned (target sub : Text) :
    ∃ inner d, isHard d = true ∧ turned target sub = '(' :: (inner ++ [d]) := by
  unfold turned
  split
  · exact ⟨"POSITION( ".toList ++ (upTo ')' sub ++ " )".toList) ++ moved target ++ past ')' sub, ')', rfl, rfl⟩
  · refine ⟨"POSITION( ".toList ++ sub ++ moved target ++ " )".toList, ' ', rfl, ?_⟩
    have hend : " ) ".toList = " )".toList ++ [' '] := rfl
    rw [hend, ← List.append_assoc]
    rfl

theorem exists_meant (target sub : Text) : ∃ inner, meant target sub = '(' :: (inner ++ [')']) := by
  refine ⟨"POSITION( ".toList ++ sub ++ " IN ".toList ++ target ++ " ) -1 ".toList, ?_⟩
  have hend : " ) -1 )".toList = " ) -1 ".toList ++ [')'] := rfl
  unfold meant
  rw [hend, ← List.append_assoc]
  rfl

/-- The pieces differ in white space and order only. -/
theorem length_solid_turned (target sub : Text) :
    (solid (turned target sub)).length = (solid (meant target sub)).length := by
  unfold turned meant moved
  split
  · next hclose =>
      have hsub := congrArg (fun text => (solid text).length) (eq_upTo_append_past hclose)
      have hcons : ')' :: past ')' sub = ")".toList ++ past ')' sub := rfl
      simp only [hcons, solid_append, List.length_append] at hsub ⊢
      have hlast : (solid ") -1".toList).length + (solid ")".toList).length = (solid " ) -1 )".toList).length := rfl
      have hclosing : (solid " )".toList).length = (solid ")".toList).length := rfl
      omega
  · have hlast : (solid ") -1".toList).length + (solid " ) ".toList).length = (solid " ) -1 )".toList).length := rfl
    simp only [solid_append, List.length_append]
    omega

/-- `) -1` with a space before and behind it. -/
theorem sameLexemes_moved (target : Text) : SameLexemes (moved target) (" IN ".toList ++ target ++ " ) -1".toList) := by
  have hclose : SameLexemes ") -1".toList " ) -1".toList := by
    intro a b
    have hspace := SameLexemes.space_left (c := ')') (d := ' ') rfl rfl a (" -1".toList ++ b)
    simpa using hspace.symm
  exact (SameLexemes.refl _).append hclose

theorem lexemes_turned_iff (target sub : Text) :
    lexemes (turned target sub) = lexemes (meant target sub) ↔
      lexemes (moved target ++ past ')' sub) = lexemes (past ')' sub ++ moved target) := by
  by_cases hclose : ')' ∈ sub
  · have hlast (text : Text) : lexemes (text ++ [')']) = lexemes text ++ [[')']] := lexemes_append_paren rfl text []
    have hspace (text : Text) : lexemes (text ++ [' ']) = lexemes text := by
      rw [lexemes_append_space rfl, lexemes_nil, List.append_nil]
    have hturned : turned target sub
        = ("(POSITION( ".toList ++ upTo ')' sub ++ [' ']) ++ ')' :: (moved target ++ past ')' sub ++ [')']) := by
      unfold turned
      rw [if_pos hclose]
      simp
    have hmeant : meant target sub
        = "(POSITION( ".toList ++ upTo ')' sub ++
            ')' :: (past ')' sub ++ (" IN ".toList ++ target ++ " ) -1".toList) ++ [' '] ++ [')']) := by
      conv_lhs => rw [eq_upTo_append_past hclose]
      unfold meant
      simp
    have hpast : lexemes (past ')' sub ++ (" IN ".toList ++ target ++ " ) -1".toList))
        = lexemes (past ')' sub ++ moved target) :=
      ((SameLexemes.refl _).append (sameLexemes_moved target)).lexemes_eq.symm
    rw [hturned, hmeant, lexemes_append_paren rfl _ (moved target ++ past ')' sub ++ [')']), hspace, hlast,
      lexemes_append_paren rfl, hlast, hspace, hpast, List.append_cancel_left_eq, List.cons.injEq,
      List.append_cancel_right_eq, eq_self_iff_true, true_and]
  · have hpast : past ')' sub = [] := past_of_not_mem hclose
    rw [hpast, List.append_nil, List.nil_append, eq_self_iff_true, iff_true]
    unfold turned meant
    rw [if_neg hclose]
    have hend : " ) -1 )".toList = " ) -1".toList ++ " )".toList := rfl
    have hspace : " ) ".toList = " )".toList ++ ' ' :: [] := rfl
    have hpiece := (((SameLexemes.refl ("(POSITION( ".toList ++ sub)).append (sameLexemes_moved target)).append
      (SameLexemes.refl " )".toList)).lexemes_eq
    rw [hspace, ← List.append_assoc, lexemes_append_space rfl, lexemes_nil, List.append_nil, hpiece, hend]
    simp only [List.append_assoc]

namespace Sql

/-- Without nested calls, each call has to be written as it is meant. -/
theorem lexemes_coded_iff {sql : Sql} (hflat : sql.Flat) (before : Text) :
    lexemes (before ++ sql.coded) = lexemes (before ++ sql.expected) ↔ sql.Commutes := by
  induction sql generalizing before with
  | nil => exact iff_of_true rfl trivial
  | char c rest ih =>
      have hrest := ih hflat (before ++ [c])
      rwa [List.append_assoc, List.append_assoc] at hrest
  | call target sub rest _ ih =>
      obtain ⟨inner, d, hd, hturned⟩ := exists_turned target sub.raw
      obtain ⟨inner', hmeant⟩ := exists_meant target sub.raw
      have hrest := ih hflat.2 []
      rw [List.nil_append, List.nil_append] at hrest
      rw [coded, expected, expected_of_not_mem hflat.1, ← List.append_assoc, ← List.append_assoc, hturned, hmeant,
        lexemes_between rfl hd, lexemes_between rfl rfl, ← hturned, ← hmeant, List.append_assoc, List.append_assoc,
        List.append_cancel_left_eq, lexemes_append_inj (length_solid_turned target sub.raw), lexemes_turned_iff, hrest]
      rfl

end Sql

/-! ## Calls in calls -/

/-- White space behind what is written. -/
theorem sameLexemes_moved_append {blank : Text} (h : ∀ c ∈ blank, isSpace c = true) (target : Text) :
    SameLexemes (moved target ++ blank ++ ")".toList) (" IN ".toList ++ target ++ " ) -1 )".toList) := by
  have hclose : SameLexemes (blank ++ [')']) [' ', ')'] :=
    (SameLexemes.blank_left rfl h).trans fun a b => (SameLexemes.space_left rfl rfl a b).symm
  have hend : " ) -1 )".toList = " ) -1".toList ++ [' ', ')'] := rfl
  rw [hend, List.append_assoc, ← List.append_assoc _ " ) -1".toList]
  exact (sameLexemes_moved target).append hclose

theorem sameLexemes_turned_of_not_mem (hclose : ')' ∉ sub) : SameLexemes (turned target sub) (meant target sub) := by
  have hspace : SameLexemes " ) ".toList " )".toList :=
    (@SameLexemes.blank_right ')' rfl [' '] (List.forall_mem_singleton.2 rfl)).cons ' '
  unfold turned meant
  rw [if_neg hclose]
  have hend : " ) -1 )".toList = " ) -1".toList ++ " )".toList := rfl
  have hpiece := (((SameLexemes.refl ("(POSITION( ".toList ++ sub)).append (sameLexemes_moved target)).append hspace)
  rw [hend]
  simpa only [List.append_assoc] using hpiece

theorem not_mem_of_isSpace {text : Text} {c : Char} (h : ∀ d ∈ text, isSpace d = true) (hc : isSpace c = false) :
    c ∉ text := by
  intro hmem
  rw [h c hmem] at hc
  cases hc

theorem upTo_cons_of_ne {c d : Char} (h : d ≠ c) (text : Text) : upTo c (d :: text) = d :: upTo c text :=
  List.takeWhile_cons_of_pos (by simpa using h)

theorem past_cons_of_ne {c d : Char} (h : d ≠ c) (text : Text) : past c (d :: text) = past c text := by
  rw [past, past, List.dropWhile_cons_of_pos (by simpa using h)]

theorem past_append_of_mem {c : Char} {text : Text} (h : c ∈ text) (other : Text) :
    past c (text ++ other) = past c text ++ other := by
  have hwhole : text ++ other = upTo c text ++ c :: (past c text ++ other) := by
    conv_lhs => rw [eq_upTo_append_past h]
    simp
  rw [hwhole, past_append (not_mem_upTo c text)]

/-- White space behind the second argument. -/
theorem sameLexemes_meant_concat (target sub : Text) :
    SameLexemes (meant target (sub ++ [' '])) (meant target sub) := by
  have hspaces : SameLexemes ([' '] ++ " IN ".toList) " IN ".toList :=
    (@SameLexemes.blank_right ' ' rfl [' '] (List.forall_mem_singleton.2 rfl)).append (SameLexemes.refl "IN ".toList)
  have hpiece := ((SameLexemes.refl ("(POSITION( ".toList ++ sub)).append hspaces).append
    (SameLexemes.refl (target ++ " ) -1 )".toList))
  unfold meant
  simpa only [List.append_assoc] using hpiece

/-- White space behind the call. -/
theorem sameLexemes_meant_append {blank : Text} (h : ∀ c ∈ blank, isSpace c = true) (target sub : Text) :
    SameLexemes (meant target sub ++ blank) (meant target sub) := by
  obtain ⟨inner, hmeant⟩ := exists_meant target sub
  have hpiece := (SameLexemes.refl ('(' :: inner)).append (@SameLexemes.blank_right ')' rfl blank h)
  rw [hmeant]
  simpa only [List.cons_append, List.append_assoc, List.nil_append] using hpiece

namespace Sql

/-- The second argument is the same up to its spacing, with a space before its last parenthesis. -/
theorem exists_spaced {sql : Sql} (hvalid : sql.Valid) (hfits : sql.Fits) (hclose : ')' ∈ sql.raw)
    (hblank : ∀ c ∈ past ')' sql.raw, isSpace c = true) :
    ∃ sql' : Sql, sql'.raw = upTo ')' sql.raw ++ " )".toList ∧ sql'.Valid ∧ sql'.Fits ∧
      SameLexemes sql'.expected sql.expected := by
  induction sql with
  | nil => exact absurd hclose List.not_mem_nil
  | char c rest ih =>
      rw [raw] at hclose hblank ⊢
      rcases eq_or_ne c ')' with rfl | hc
      · have hpast : past ')' (')' :: rest.raw) = rest.raw := past_append List.not_mem_nil rest.raw
        rw [hpast] at hblank
        have hrest : rest.expected = rest.raw := expected_of_not_mem (not_mem_of_isSpace hblank rfl)
        refine ⟨char ' ' (char ')' nil), ?_, ⟨by decide, by decide, trivial⟩, trivial, ?_⟩
        · rw [show upTo ')' (')' :: rest.raw) = [] from upTo_append List.not_mem_nil rest.raw]
          rfl
        · rw [expected.eq_2 _ rest, hrest]
          exact (SameLexemes.space_left rfl rfl).trans fun a b => (SameLexemes.blank_right rfl hblank a b).symm
      · rw [past_cons_of_ne hc] at hblank
        obtain ⟨sql', hraw, hvalid', hfits', hsame⟩ :=
          ih hvalid.2 hfits ((List.mem_cons.1 hclose).resolve_left (Ne.symm hc)) hblank
        refine ⟨char c sql', ?_, ⟨hvalid.1, hvalid'⟩, hfits', hsame.cons c⟩
        rw [raw, hraw, upTo_cons_of_ne hc]
        rfl
  | call target sub rest _ _ =>
      have hraw : (call target sub rest).raw
          = ("POSITION(".toList ++ target ++ '?' :: sub.raw) ++ ')' :: rest.raw := by
        rw [raw]
        unfold called
        simp
      -- what is behind the first closing parenthesis would have the one of the call in it
      have hopen : ')' ∉ "POSITION(".toList ++ target ++ '?' :: sub.raw := by
        intro hmem
        rw [hraw, past_append_of_mem hmem] at hblank
        exact not_mem_of_isSpace hblank rfl (List.mem_append_right _ List.mem_cons_self)
      rw [hraw, past_append hopen] at hblank
      have hsub : ')' ∉ sub.raw ++ [' '] := by
        rw [List.mem_append, not_or]
        exact ⟨fun hmem => hopen (List.mem_append_right _ (List.mem_cons_of_mem _ hmem)), by decide⟩
      have hspaced : (sub.append (char ' ' nil)).raw = sub.raw ++ [' '] := raw_append sub _
      have hbalanced : IsBalanced (sub.append (char ' ' nil)).raw := by
        rw [hspaced, IsBalanced, depth_append, hvalid.2.1]
        rfl
      refine ⟨call target (sub.append (char ' ' nil)) nil, ?_, ?_, ?_, ?_⟩
      · rw [hraw, upTo_append hopen, raw, hspaced]
        unfold called
        simp [raw]
      · exact ⟨hvalid.1, hbalanced, valid_append hvalid.2.2.1 ⟨by decide, trivial⟩, trivial⟩
      · refine ⟨?_, fits_append hfits.2.1 trivial, trivial⟩
        rw [hspaced, past_of_not_mem hsub]
        exact fun c hc => absurd hc List.not_mem_nil
      · have hrest : rest.expected = rest.raw := expected_of_not_mem (not_mem_of_isSpace hblank rfl)
        have hexpected : (sub.append (char ' ' nil)).expected = sub.expected ++ [' '] := expected_append sub _
        rw [expected, expected, hexpected, List.append_nil, expected, hrest]
        exact (sameLexemes_meant_concat target sub.expected).trans
          fun a b => (sameLexemes_meant_append hblank target sub.expected a b).symm

/-- The text of the next turn is one with a call less that is meant to be the same. -/
theorem exists_turn {sql : Sql} (hvalid : sql.Valid) (hfits : sql.Fits) (h : '?' ∈ sql.raw) :
    ∃ sql' : Sql, positionTurn sql.raw = some sql'.raw ∧ sql'.Valid ∧ sql'.Fits ∧
      SameLexemes sql'.expected sql.expected := by
  obtain ⟨before, target, sub, rest, rfl, hbefore⟩ := exists_call hvalid h
  obtain ⟨htarget, hbalanced, hsub, hrest⟩ := valid_of_chars hvalid
  obtain ⟨hblank, hfits, hfitsRest⟩ := fits_of_chars hfits
  rw [raw_chars, raw, positionTurn_called hbefore htarget hbalanced, expected_chars, expected]
  by_cases hclose : ')' ∈ sub.raw
  · obtain ⟨sub', hraw, hvalid', hfits', hsame⟩ := exists_spaced hsub hfits hclose hblank
    have hbehind : '?' ∉ moved target ++ past ')' sub.raw ++ ")".toList := by
      have hpast := not_mem_of_isSpace hblank (c := '?') rfl
      have htarget := htarget.1
      unfold moved
      simp only [List.mem_append, not_or]
      and_intros
      all_goals first | assumption | decide
    have hstart : '?' ∉ before ++ "(POSITION( ".toList := by
      rw [List.mem_append, not_or]
      exact ⟨hbefore, by decide⟩
    refine ⟨chars (before ++ "(POSITION( ".toList)
      (sub'.append (chars (moved target ++ past ')' sub.raw ++ ")".toList) rest)), ?_, ?_, ?_, ?_⟩
    · rw [raw_chars, raw_append, raw_chars, hraw]
      unfold turned
      rw [if_pos hclose]
      simp only [List.append_assoc]
    · exact valid_chars hstart (valid_append hvalid' (valid_chars hbehind hrest))
    · exact fits_chars _ (fits_append hfits' (fits_chars _ hfitsRest))
    · have hpiece := (SameLexemes.refl (before ++ "(POSITION( ".toList)).append
        (hsame.append ((sameLexemes_moved_append hblank target).append (SameLexemes.refl rest.expected)))
      rw [expected_chars, expected_append, expected_chars]
      unfold meant
      simpa only [List.append_assoc] using hpiece
  · have hmark : '?' ∉ sub.raw := not_mem_of_not_mem_close hsub hclose
    have hstart : '?' ∉ before ++ turned target sub.raw := by
      rw [List.mem_append, not_or]
      exact ⟨hbefore, not_mem_turned htarget.1 hmark⟩
    refine ⟨chars (before ++ turned target sub.raw) rest, ?_, valid_chars hstart hrest, fits_chars _ hfitsRest, ?_⟩
    · rw [raw_chars, List.append_assoc]
    · rw [expected_chars, expected_of_not_mem hmark, List.append_assoc]
      have hpiece := (@sameLexemes_turned_of_not_mem target _ hclose).append (SameLexemes.refl rest.expected)
      exact (SameLexemes.refl before).append hpiece

theorem exists_convertSqlPositionFunc {sql : Sql} (hvalid : sql.Valid) (hfits : sql.Fits) :
    ∃ out, convertSqlPositionFunc sql.raw = some out ∧ lexemes out = lexemes sql.expected := by
  induction hn : sql.raw.count '?' generalizing sql with
  | zero =>
      have hmark : '?' ∉ sql.raw := List.count_eq_zero.1 hn
      exact ⟨sql.raw, convertSqlPositionFunc_of_not_mem hmark, by rw [expected_of_not_mem hmark]⟩
  | succ n ih =>
      have hmark : '?' ∈ sql.raw := List.count_pos_iff.1 (by omega)
      obtain ⟨sql', hturn, hvalid', hfits', hsame⟩ := exists_turn hvalid hfits hmark
      have hless := count_of_positionTurn hturn hmark
      obtain ⟨out, hout, hlexemes⟩ := ih hvalid' hfits' (by omega)
      refine ⟨out, ?_, hlexemes.trans hsame.lexemes_eq⟩
      rw [convertSqlPositionFunc_of_mem hmark, hturn, Option.bind_some, hout]

/-! ## IsBalanced texts -/

/-- What is meant opens and closes as many parentheses as the text. -/
theorem depth_expected {sql : Sql} (hvalid : sql.Valid) {n m : ℕ} (h : depth n sql.raw = some m) :
    depth n sql.expected = some m := by
  induction sql generalizing n m with
  | nil => exact h
  | char c rest ih =>
      rw [raw, depth_cons] at h
      obtain ⟨l, hl, h⟩ := Option.bind_eq_some_iff.1 h
      rw [expected, depth_cons, hl, Option.bind_some, ih hvalid.2 h]
  | call target sub rest ihsub ih =>
      have hsub : IsBalanced sub.expected := ihsub hvalid.2.2.1 hvalid.2.1
      rw [raw] at h
      unfold called at h
      rw [depth_append, depth_append, depth_of_not_mem (by decide)] at h
      obtain ⟨k, hk, hcall⟩ := Option.bind_eq_some_iff.1 h
      rw [Option.bind_some, show "POSITION(".toList.count '(' = 1 from rfl] at hk
      have hmark : level k '?' = some k := rfl
      rw [depth_cons, hmark, Option.bind_some, depth_append, hvalid.2.1.depth_eq, Option.bind_some, depth_cons] at hcall
      obtain ⟨l, hl, hrest⟩ := Option.bind_eq_some_iff.1 hcall
      -- the parenthesis of the call is closed, so that it was open
      obtain ⟨k, rfl⟩ : ∃ k', k = k' + 1 := by
        cases k with
        | zero => cases hl
        | succ k => exact ⟨k, rfl⟩
      obtain rfl := Option.some.inj (hl.symm.trans (rfl : level (k + 1) ')' = some k))
      have hstart : depth n "(POSITION( ".toList = some (n + 1 + 1) := depth_of_not_mem (by decide) n
      have hin (i : ℕ) : depth i " IN ".toList = some i := depth_of_not_mem (by decide) i
      have hend : depth (l + 1 + 1) " ) -1 )".toList = some l := rfl
      rw [expected]
      unfold meant
      simp only [depth_append, hstart, Option.bind_some, hsub.depth_eq, hin, depth_add hk 1, hend,
        ih hvalid.2.2.2 hrest]

/-- The text is balanced if it is the one that is meant. -/
theorem right_of_lexemes_eq {sql : Sql} (hvalid : sql.Valid) {out : Text}
    (hout : convertSqlPositionFunc sql.raw = some out) (h : lexemes out = lexemes sql.expected) : sql.Right :=
  ⟨out, hout, h, fun hbalanced => (balanced_iff_of_lexemes_eq h).2 (depth_expected hvalid hbalanced)⟩

end Sql

/-- Every call comes out as it is meant if there is nothing but white space behind the first closing parenthesis of its
    second argument; and if no call stands in another one, exactly if that part may change places with what is written
    before it. -/
theorem convertSqlPositionFunc_right {sql : Sql} (hvalid : sql.Valid) :
    (sql.Fits → sql.Right) ∧ (sql.Flat → (sql.Right ↔ sql.Commutes)) := by
  refine ⟨fun hfits => ?_, fun hflat => ?_⟩
  · obtain ⟨out, hout, h⟩ := Sql.exists_convertSqlPositionFunc hvalid hfits
    exact Sql.right_of_lexemes_eq hvalid hout h
  · have hout := Sql.convertSqlPositionFunc_flat hvalid hflat List.not_mem_nil
    have hiff := Sql.lexemes_coded_iff hflat []
    rw [List.nil_append, List.nil_append] at hout hiff
    rw [← hiff]
    refine ⟨fun ⟨out, hright, h, _⟩ => ?_, Sql.right_of_lexemes_eq hvalid hout⟩
    obtain rfl := Option.some.inj (hout.symm.trans hright)
    exact h

/-- `POSITION( a ? POSITION( b ? c ) )`. -/
def nestedCall : Sql :=
  .call " a ".toList (.char ' ' (.call " b ".toList (Sql.chars " c ".toList .nil) (.char ' ' .nil))) .nil

/-- `POSITION( a ? f(x) || y )`. -/
def joinedCall : Sql := .call " a ".toList (Sql.chars " f(x) || y ".toList .nil) .nil

theorem convertSqlPositionFunc_right_nestedCall : nestedCall.Right := by
  have htarget {target : Text} (h : '?' ∉ target ∧ 'P' ∉ target) : IsTarget target :=
    ⟨h.1, Free.of_not_mem (by decide) h.2⟩
  have hsub : (Sql.chars " c ".toList .nil).Valid := Sql.valid_chars (by decide) trivial
  have hblank {text : Text} (h : text.all isSpace) : ∀ c ∈ text, isSpace c = true := List.all_eq_true.1 h
  refine (convertSqlPositionFunc_right ?_).1
    ⟨hblank (by decide), ⟨hblank (by decide), Sql.fits_chars _ trivial, trivial⟩, trivial⟩
  exact ⟨htarget (by decide), by decide, ⟨by decide, htarget (by decide), by decide, hsub, by decide, trivial⟩, trivial⟩

/-- The text goes up to the wrong parenthesis. -/
theorem convertSqlPositionFunc_joinedCall : joinedCall.Valid ∧ ¬ joinedCall.Right := by
  have hvalid : joinedCall.Valid :=
    ⟨⟨by decide, Free.of_not_mem (c := 'P') (by decide) (by decide)⟩, by decide, Sql.valid_chars (by decide) trivial,
      trivial⟩
  refine ⟨hvalid, fun ⟨out, hout, h, _⟩ => ?_⟩
  have hcode : convertSqlPositionFunc joinedCall.raw = some "(POSITION(  f(x ) IN  a ) -1 || y )".toList := by decide
  obtain rfl := Option.some.inj (hcode.symm.trans hout)
  exact absurd h (by decide)

end QueryHelper
