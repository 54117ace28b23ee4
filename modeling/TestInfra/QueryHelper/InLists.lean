import TestInfra.Lib.SplitOn
import TestInfra.Lib.Words
import Mathlib.Data.List.Induction

set_option autoImplicit false

/-! # Lists behind `IN`

`_gen_sql_to_n1ql_braces` and `_gen_n1ql_to_sql` (`lib/couchbase_helper/query_helper.py`) go through the
blank-separated tokens of a query. Behind a token `IN` or `in`, and up to the first token with a closing parenthesis or
bracket, they write the ones as the others.

Which parentheses of a text are those of a list is not to be seen in the tokens, so that queries are texts here where
these are marked. -/

open PyText

namespace QueryHelper

/-! ## The conversions -/

/-- `text.replace(old, new)` for single characters. -/
def replaceChar (old new : Char) (text : Text) : Text := text.map fun c => if c = old then new else c

/-- What one of the two functions converts, and what it makes of a token with a closing character only. -/
structure Conversion where
  opening : Char
  closing : Char
  toOpening : Char
  toClosing : Char
  close : Text → Text

def keys : List Text := ["IN".toList, "in".toList]

/-- The loop over the tokens. -/
def convert (v : Conversion) : Bool → List Text → Text
  | _, [] => []
  | checkKeys, token :: tokens =>
      let start :=
        if !checkKeys && decide (token ∈ keys) then " ".toList else if !checkKeys then token ++ " ".toList else []
      let checkKeys := checkKeys || decide (token ∈ keys)
      if checkKeys then
        if v.opening ∈ token then
          let val := replaceChar v.opening v.toOpening token
          if v.closing ∈ token then
            start ++ replaceChar v.closing v.toClosing val ++ " ".toList ++ convert v false tokens
          else
            start ++ val ++ " ".toList ++ convert v true tokens
        else if v.closing ∈ token then
          start ++ v.close token ++ " ".toList ++ convert v false tokens
        else
          start ++ token ++ " ".toList ++ convert v true tokens
      else
        start ++ convert v false tokens

/-- `_gen_n1ql_to_sql`. -/
def genN1qlToSql (n1ql : Text) : Text :=
  convert ⟨'[', ']', '(', ')', replaceChar ']' ')'⟩ false (n1ql.splitOn ' ')

/-- The loop over the characters of a token: a closing parenthesis is replaced where it is the first one. -/
def closeFirst (token : Text) : Text :=
  token.zipIdx.map fun (vals, count) => if count = 0 ∧ vals = ')' then ']' else vals

/-- `_gen_sql_to_n1ql_braces`. -/
def genSqlToN1qlBraces (n1ql : Text) : Text := convert ⟨'(', ')', '[', ']', closeFirst⟩ false (n1ql.splitOn ' ')

/-! ## Token by token -/

section Tokens

variable (v : Conversion)

/-- What is made of a token behind `IN`. -/
def convertToken (token : Text) : Text :=
  if v.opening ∈ token then
    if v.closing ∈ token then replaceChar v.closing v.toClosing (replaceChar v.opening v.toOpening token)
    else replaceChar v.opening v.toOpening token
  else if v.closing ∈ token then v.close token
  else token

/-- What is written of a token. -/
def value (checkKeys : Bool) (token : Text) : Text :=
  if checkKeys || decide (token ∈ keys) then convertToken v token else token

/-- The flag behind a token. -/
def next (checkKeys : Bool) (token : Text) : Bool := (checkKeys || decide (token ∈ keys)) && !decide (v.closing ∈ token)

def values : Bool → List Text → List Text
  | _, [] => []
  | checkKeys, token :: tokens => value v checkKeys token :: values (next v checkKeys token) tokens

/-- The loop writes the values, each with a blank behind it, and one more blank before an `IN`. -/
theorem convert_cons (checkKeys : Bool) (token : Text) (tokens : List Text) :
    convert v checkKeys (token :: tokens) = (if !checkKeys && decide (token ∈ keys) then [' '] else []) ++
      (value v checkKeys token ++ ' ' :: convert v (next v checkKeys token) tokens) := by
  by_cases hkey : token ∈ keys
  · by_cases ho : v.opening ∈ token
    · by_cases hc : v.closing ∈ token <;> cases checkKeys <;> simp [convert, value, next, convertToken, hkey, ho, hc]
    · by_cases hc : v.closing ∈ token <;> cases checkKeys <;> simp [convert, value, next, convertToken, hkey, ho, hc]
  · cases checkKeys with
    | false => simp [convert, value, next, hkey]
    | true =>
        by_cases ho : v.opening ∈ token
        · by_cases hc : v.closing ∈ token <;> simp [convert, value, next, convertToken, hkey, ho, hc]
        · by_cases hc : v.closing ∈ token <;> simp [convert, value, next, convertToken, hkey, ho, hc]

theorem words_convert (checkKeys : Bool) (tokens : List Text) :
    words (convert v checkKeys tokens) = (values v checkKeys tokens).flatMap words := by
  induction tokens generalizing checkKeys with
  | nil => rfl
  | cons token tokens ih =>
      rw [convert_cons, values, List.flatMap_cons, ← ih]
      split
      · rw [List.singleton_append, words_cons rfl, words_append_cons rfl]
      · rw [List.nil_append, words_append_cons rfl]

/-- The spacing of a token stays as it is. -/
structure Conversion.Solid : Prop where
  opening : isSpace v.opening = false
  closing : isSpace v.closing = false
  toOpening : isSpace v.toOpening = false
  toClosing : isSpace v.toClosing = false
  close : ∀ token, spacing (v.close token) = spacing token

theorem spacing_replaceChar {old new : Char} (hold : isSpace old = false) (hnew : isSpace new = false) (text : Text) :
    spacing (replaceChar old new text) = spacing text := by
  rw [spacing, replaceChar, List.map_map]
  refine List.map_congr_left fun c _ => ?_
  rw [Function.comp_apply]
  split
  · next h => simp [h, hold, hnew]
  · rfl

variable {v} (hv : v.Solid)
include hv

theorem spacing_value (checkKeys : Bool) (token : Text) : spacing (value v checkKeys token) = spacing token := by
  have hopening := spacing_replaceChar hv.opening hv.toOpening
  have hclosing := spacing_replaceChar hv.closing hv.toClosing
  unfold value convertToken
  split
  · split
    · split
      · rw [hclosing, hopening]
      · exact hopening token
    · split
      · exact hv.close token
      · rfl
  · rfl

theorem map_spacing_values (checkKeys : Bool) (tokens : List Text) :
    (values v checkKeys tokens).map spacing = tokens.map spacing := by
  induction tokens generalizing checkKeys with
  | nil => rfl
  | cons token tokens ih => rw [values, List.map_cons, List.map_cons, spacing_value hv, ih]

theorem value_eq_nil_iff (checkKeys : Bool) (token : Text) : value v checkKeys token = [] ↔ token = [] := by
  have hlength := congrArg List.length (spacing_value hv checkKeys token)
  rw [spacing, spacing, List.length_map, List.length_map] at hlength
  rw [← List.length_eq_zero_iff, hlength, List.length_eq_zero_iff]

/-- The loop does not see the empty tokens. -/
theorem values_filter (checkKeys : Bool) (tokens : List Text) :
    values v checkKeys (tokens.filter fun token => token ≠ []) =
      (values v checkKeys tokens).filter fun token => token ≠ [] := by
  induction tokens generalizing checkKeys with
  | nil => rfl
  | cons token tokens ih =>
      rcases eq_or_ne token [] with rfl | hne
      · have hvalue : value v checkKeys [] = [] := (value_eq_nil_iff hv checkKeys []).2 rfl
        have hnext : next v checkKeys [] = checkKeys := by
          have hkey : ([] : Text) ∉ keys := by decide
          simp [next, hkey]
        rw [List.filter_cons_of_neg (by simp), ih, values, hvalue, hnext, List.filter_cons_of_neg (by simp)]
      · have hvalue : value v checkKeys token ≠ [] := fun h => hne ((value_eq_nil_iff hv checkKeys token).1 h)
        rw [List.filter_cons_of_pos (by simpa using hne), values, values, ih,
          List.filter_cons_of_pos (by simpa using hvalue)]

/-- The tokens of what the loop writes. -/
theorem splitOn_convert (checkKeys : Bool) {tokens : List Text} (h : ∀ token ∈ tokens, ' ' ∉ token) :
    ((convert v checkKeys tokens).splitOn ' ').filter (fun token => token ≠ []) =
      (values v checkKeys tokens).filter fun token => token ≠ [] := by
  induction tokens generalizing checkKeys with
  | nil => rfl
  | cons token tokens ih =>
      have hblank : ' ' ∉ value v checkKeys token := by
        have htoken := h token List.mem_cons_self
        rwa [← mem_spacing rfl, ← spacing_value hv checkKeys token, mem_spacing rfl] at htoken
      have hrest := ih (next v checkKeys token) fun t ht => h t (List.mem_cons_of_mem token ht)
      have hsplit : ((value v checkKeys token ++ ' ' :: convert v (next v checkKeys token) tokens).splitOn ' ').filter
          (fun token => token ≠ []) = (values v checkKeys (token :: tokens)).filter fun token => token ≠ [] := by
        rw [List.splitOn_append_cons_self_of_not_mem hblank, values, List.filter_cons, List.filter_cons, hrest]
      rw [convert_cons]
      split
      · rw [List.singleton_append, List.splitOn_cons_eq_if_modifyHead, if_pos (beq_self_eq_true ' '),
          List.filter_cons_of_neg (by simp), hsplit]
      · rw [List.nil_append, hsplit]

end Tokens

theorem flatMap_words_filter (tokens : List Text) :
    (tokens.filter fun token => token ≠ []).flatMap words = tokens.flatMap words := by
  induction tokens with
  | nil => rfl
  | cons token tokens ih =>
      rcases eq_or_ne token [] with rfl | hne
      · rw [List.filter_cons_of_neg (by simp), ih, List.flatMap_cons, words_nil, List.nil_append]
      · rw [List.filter_cons_of_pos (by simpa using hne), List.flatMap_cons, List.flatMap_cons, ih]

theorem words_eq_flatMap (text : Text) : words text = (text.splitOn ' ').flatMap words := by
  rw [← words_join (show isSpace ' ' = true from rfl), join, List.intercalate_splitOn]

/-- The words after one conversion and another one. -/
theorem words_convert_convert {v v' : Conversion} (hv : v.Solid) (hv' : v'.Solid) {tokens : List Text}
    (h : ∀ token ∈ tokens, ' ' ∉ token) :
    words (convert v' false ((convert v false tokens).splitOn ' ')) =
      (values v' false (values v false tokens)).flatMap words := by
  rw [words_convert, ← flatMap_words_filter, ← values_filter hv', splitOn_convert hv false h, values_filter hv',
    flatMap_words_filter]

/-! ## Texts with marked lists -/

/-- A character of a query, or one of the two that a list stands between. -/
inductive Sym
  | char (c : Char)
  | opening
  | closing
deriving DecidableEq

def Sym.sql : Sym → Char
  | .char c => c
  | .opening => '('
  | .closing => ')'

def Sym.n1ql : Sym → Char
  | .char c => c
  | .opening => '['
  | .closing => ']'

/-- An `IN` with its list, behind other text. -/
structure InList where
  text : Text
  keyword : Text
  keyword_mem : keyword ∈ ["IN".toList, "in".toList, "In".toList, "iN".toList]
  gap : Text
  gap_blank : gap.all isSpace = true
  body : Text
  body_free : (body.all fun c => c ∉ ['(', ')', '[', ']']) = true

def InList.syms (list : InList) : List Sym :=
  (list.text ++ list.keyword ++ list.gap).map .char ++ .opening :: list.body.map .char ++ [.closing]

/-- A text with lists behind its `IN`s. -/
structure InText where
  lists : List InList
  rest : Text

def InText.syms (text : InText) : List Sym := text.lists.flatMap InList.syms ++ text.rest.map .char

def InText.sql (text : InText) : Text := text.syms.map Sym.sql

/-- The same text, with brackets around the lists and nowhere else. -/
def InText.n1ql (text : InText) : Text := text.syms.map Sym.n1ql

/-- The blank-separated tokens. -/
def InText.tokens (text : InText) : List (List Sym) := text.syms.splitOn (.char ' ')

/-- The lists are converted, and converted back, up to spacing. -/
def Converted (text : InText) : Prop :=
  words (genSqlToN1qlBraces text.sql) = words text.n1ql ∧
    words (genN1qlToSql (genSqlToN1qlBraces text.sql)) = words text.sql

/-! ## When they are -/

/-- There is an `IN` among these tokens, and no closing character behind it. -/
def Armed (closing : Char) (write : Sym → Char) (before : List (List Sym)) : Prop :=
  ∃ a key b, before = a ++ key :: b ∧ key.map write ∈ keys ∧ ∀ token ∈ b, closing ∉ token.map write

/-- The token belongs to no list's ends. -/
def Unmarked (token : List Sym) : Prop := .opening ∉ token ∧ .closing ∉ token

/-- A token has what its conversion takes: behind an `IN`, no other parenthesis where a list begins, and a list ends
    with the token's first character where it does not begin; elsewhere, no end of a list. -/
structure Converts (before : List (List Sym)) (token : List Sym) : Prop where
  unmarked : ¬ Armed ')' Sym.sql before → Unmarked token
  opening : Armed ')' Sym.sql before → .char '(' ∉ token
  closing : Armed ')' Sym.sql before → .opening ∈ token → .char ')' ∉ token
  first : Armed ')' Sym.sql before → .opening ∉ token → token.head? ≠ some (.char ')') ∧ .closing ∉ token.tail

/-- And its conversion back: behind an `IN`, no other bracket; elsewhere, no end of a list. -/
structure Reverts (before : List (List Sym)) (token : List Sym) : Prop where
  unmarked : ¬ Armed ']' Sym.n1ql before → Unmarked token
  brackets : Armed ']' Sym.n1ql before → .char '[' ∉ token ∧ .char ']' ∉ token

/-- The conversion from SQL. -/
def toBraces : Conversion := ⟨'(', ')', '[', ']', closeFirst⟩

/-- The conversion to SQL. -/
def toSql : Conversion := ⟨'[', ']', '(', ')', replaceChar ']' ')'⟩

theorem closeFirst_cons (c : Char) (rest : Text) : closeFirst (c :: rest) = (if c = ')' then ']' else c) :: rest := by
  have hrest : (rest.zipIdx 1).map (fun x : Char × ℕ => if x.2 = 0 ∧ x.1 = ')' then ']' else x.1) = rest := by
    have hmap : (rest.zipIdx 1).map (fun x : Char × ℕ => if x.2 = 0 ∧ x.1 = ')' then ']' else x.1) =
        (rest.zipIdx 1).map Prod.fst := by
      refine List.map_congr_left fun x hx => ?_
      have hpos := List.le_snd_of_mem_zipIdx hx
      rw [if_neg (by omega)]
    rw [hmap, List.zipIdx_map_fst]
  rw [closeFirst, List.zipIdx_cons, List.map_cons, hrest]
  simp

theorem solid_toBraces : toBraces.Solid where
  opening := rfl
  closing := rfl
  toOpening := rfl
  toClosing := rfl
  close := by
    intro token
    rcases token with _ | ⟨c, rest⟩
    · rfl
    · have hclose : toBraces.close (c :: rest) = closeFirst (c :: rest) := rfl
      rw [hclose, closeFirst_cons, spacing, spacing, List.map_cons, List.map_cons]
      split
      · next h => rw [h]; rfl
      · rfl

theorem solid_toSql : toSql.Solid where
  opening := rfl
  closing := rfl
  toOpening := rfl
  toClosing := rfl
  close := spacing_replaceChar rfl rfl

theorem values_eq_iff (v : Conversion) {f g : Sym → Char} (checkKeys : Bool) (tokens : List (List Sym)) :
    values v checkKeys (tokens.map (List.map f)) = tokens.map (List.map g) ↔
      ∀ before token after, tokens = before ++ token :: after →
        value v ((before.map (List.map f)).foldl (next v) checkKeys) (token.map f) = token.map g := by
  induction tokens generalizing checkKeys with
  | nil => simp [values]
  | cons token tokens ih =>
      rw [List.map_cons, List.map_cons, values, List.cons.injEq, ih]
      constructor
      · rintro ⟨hfirst, hothers⟩ before token' after heq
        rcases before with _ | ⟨first, before⟩
        · rw [List.nil_append, List.cons.injEq] at heq
          obtain ⟨rfl, -⟩ := heq
          exact hfirst
        · rw [List.cons_append, List.cons.injEq] at heq
          obtain ⟨rfl, heq⟩ := heq
          exact hothers before token' after heq
      · intro h
        refine ⟨h [] token tokens rfl, fun before token' after heq => ?_⟩
        exact h (token :: before) token' after (by rw [heq, List.cons_append])

/-- The flag is set behind an `IN` and up to a closing character. -/
theorem foldl_next_iff (v : Conversion) (f : Sym → Char) (hkeys : ∀ key ∈ keys, v.closing ∉ key)
    (before : List (List Sym)) :
    (before.map (List.map f)).foldl (next v) false = true ↔ Armed v.closing f before := by
  induction before using List.reverseRecOn with
  | nil => simp [Armed]
  | append_singleton before token ih =>
      rw [List.map_append, List.foldl_append]
      simp only [List.map_cons, List.map_nil, List.foldl_cons, List.foldl_nil]
      rw [next, Bool.and_eq_true, Bool.or_eq_true, ih, decide_eq_true_eq, Bool.not_eq_true', decide_eq_false_iff_not]
      constructor
      · rintro ⟨⟨a, key, b, rfl, hkey, hb⟩ | hkey, htoken⟩
        · refine ⟨a, key, b ++ [token], by simp, hkey, ?_⟩
          intro t ht
          rcases List.mem_append.1 ht with ht | ht
          · exact hb t ht
          · rwa [List.mem_singleton.1 ht]
        · exact ⟨before, token, [], rfl, hkey, fun t ht => absurd ht List.not_mem_nil⟩
      · rintro ⟨a, key, b, heq, hkey, hb⟩
        rcases List.eq_nil_or_concat b with rfl | ⟨b, last, rfl⟩
        · obtain ⟨rfl, hlast⟩ := List.append_inj' heq rfl
          cases hlast
          exact ⟨.inr hkey, hkeys _ hkey⟩
        · rw [List.concat_eq_append, ← List.cons_append, ← List.append_assoc] at heq
          obtain ⟨rfl, hlast⟩ := List.append_inj' heq rfl
          cases hlast
          refine ⟨.inl ⟨a, key, b, rfl, hkey, fun t ht => hb t ?_⟩, hb token ?_⟩
          · rw [List.concat_eq_append, List.mem_append]
            exact .inl ht
          · rw [List.concat_eq_append, List.mem_append]
            exact .inr (List.mem_singleton_self token)

theorem value_false {v : Conversion} (hkeys : ∀ key ∈ keys, v.opening ∉ key ∧ v.closing ∉ key) (token : Text) :
    value v false token = token := by
  rw [value, Bool.false_or]
  split
  · next h =>
      obtain ⟨hopening, hclosing⟩ := hkeys token (of_decide_eq_true h)
      rw [convertToken, if_neg hopening, if_neg hclosing]
  · rfl

section Token

variable {token : List Sym}

/-- Two ways of writing agree on a token without the two symbols on which they differ. -/
theorem map_eq_map_iff {f g : Sym → Char} {a b : Sym} (h : ∀ sym, f sym = g sym ↔ sym ≠ a ∧ sym ≠ b) :
    token.map f = token.map g ↔ a ∉ token ∧ b ∉ token := by
  rw [List.map_inj_left]
  constructor
  · exact fun heq => ⟨fun ha => ((h a).1 (heq a ha)).1 rfl, fun hb => ((h b).1 (heq b hb)).2 rfl⟩
  · intro ⟨ha, hb⟩ sym hsym
    exact (h sym).2 ⟨ne_of_mem_of_not_mem hsym ha, ne_of_mem_of_not_mem hsym hb⟩

theorem map_sql_eq_iff : token.map Sym.sql = token.map Sym.n1ql ↔ Unmarked token :=
  map_eq_map_iff fun sym => by cases sym <;> simp [Sym.sql, Sym.n1ql]

/-- A character is that of a list's end, or one of the text. -/
theorem mem_map_iff {write : Sym → Char} {c : Char} {mark : Sym}
    (h : ∀ sym, write sym = c ↔ sym = mark ∨ sym = .char c) : c ∈ token.map write ↔ mark ∈ token ∨ .char c ∈ token := by
  rw [List.mem_map]
  constructor
  · rintro ⟨sym, hsym, heq⟩
    rcases (h sym).1 heq with rfl | rfl
    · exact .inl hsym
    · exact .inr hsym
  · rintro (hmem | hmem)
    · exact ⟨_, hmem, (h _).2 (.inl rfl)⟩
    · exact ⟨_, hmem, (h _).2 (.inr rfl)⟩

theorem opening_mem_sql : '(' ∈ token.map Sym.sql ↔ .opening ∈ token ∨ .char '(' ∈ token :=
  mem_map_iff fun sym => by cases sym <;> simp [Sym.sql]

theorem closing_mem_sql : ')' ∈ token.map Sym.sql ↔ .closing ∈ token ∨ .char ')' ∈ token :=
  mem_map_iff fun sym => by cases sym <;> simp [Sym.sql]

theorem opening_mem_n1ql : '[' ∈ token.map Sym.n1ql ↔ .opening ∈ token ∨ .char '[' ∈ token :=
  mem_map_iff fun sym => by cases sym <;> simp [Sym.n1ql]

theorem closing_mem_n1ql : ']' ∈ token.map Sym.n1ql ↔ .closing ∈ token ∨ .char ']' ∈ token :=
  mem_map_iff fun sym => by cases sym <;> simp [Sym.n1ql]

/-- A token behind an `IN`, with a parenthesis that opens: all its parentheses are replaced. -/
theorem convertToken_opening (hopening : '(' ∈ token.map Sym.sql) :
    convertToken toBraces (token.map Sym.sql) = token.map Sym.n1ql ↔ .char '(' ∉ token ∧ .char ')' ∉ token := by
  rw [convertToken, if_pos (show toBraces.opening ∈ _ from hopening)]
  split
  · rw [replaceChar, replaceChar, List.map_map, List.map_map]
    refine map_eq_map_iff fun sym => ?_
    cases sym with
    | char c => by_cases ho : c = '(' <;> by_cases hc : c = ')' <;> simp [Sym.sql, Sym.n1ql, toBraces, ho, hc]
    | opening | closing => simp [Sym.sql, Sym.n1ql, toBraces]
  · next hclosing =>
      rw [show toBraces.closing = ')' from rfl, closing_mem_sql, not_or] at hclosing
      have hreplaced : replaceChar toBraces.opening toBraces.toOpening (token.map Sym.sql) = token.map Sym.n1ql ↔
          .char '(' ∉ token ∧ .closing ∉ token := by
        rw [replaceChar, List.map_map]
        refine map_eq_map_iff fun sym => ?_
        cases sym with
        | char c => by_cases ho : c = '(' <;> simp [Sym.sql, Sym.n1ql, toBraces, ho]
        | opening | closing => simp [Sym.sql, Sym.n1ql, toBraces]
      rw [hreplaced, and_iff_left hclosing.1, and_iff_left hclosing.2]

/-- A token behind an `IN`, without one: a closing parenthesis is replaced where it is the first character. -/
theorem convertToken_first (hopening : '(' ∉ token.map Sym.sql) :
    convertToken toBraces (token.map Sym.sql) = token.map Sym.n1ql ↔
      token.head? ≠ some (.char ')') ∧ .closing ∉ token.tail := by
  rw [convertToken, if_neg (show toBraces.opening ∉ _ from hopening)]
  rw [opening_mem_sql, not_or] at hopening
  have htail (rest : List Sym) (hrest : .opening ∉ rest) :
      rest.map Sym.sql = rest.map Sym.n1ql ↔ .closing ∉ rest := by
    rw [map_sql_eq_iff, Unmarked]
    exact and_iff_right hrest
  split
  · rcases token with _ | ⟨sym, rest⟩
    · simp [toBraces, closeFirst]
    · rw [show toBraces.close = closeFirst from rfl, List.map_cons, List.map_cons, closeFirst_cons, List.cons.injEq,
        htail rest fun h => hopening.1 (List.mem_cons_of_mem sym h), List.head?_cons, List.tail_cons]
      refine and_congr_left fun _ => ?_
      cases sym with
      | char c => by_cases hc : c = ')' <;> simp [Sym.sql, Sym.n1ql, hc]
      | opening => exact absurd List.mem_cons_self hopening.1
      | closing => simp [Sym.sql, Sym.n1ql]
  · next hclosing =>
      rw [show toBraces.closing = ')' from rfl, closing_mem_sql, not_or] at hclosing
      refine iff_of_true (map_sql_eq_iff.2 ⟨hopening.1, hclosing.1⟩) ⟨fun hhead => ?_, fun hmem => ?_⟩
      · exact hclosing.2 (List.mem_of_mem_head? hhead)
      · exact hclosing.1 (List.mem_of_mem_tail hmem)

/-- A token behind an `IN`, on the way back: all its brackets are replaced. -/
theorem convertToken_brackets :
    convertToken toSql (token.map Sym.n1ql) = token.map Sym.sql ↔ .char '[' ∉ token ∧ .char ']' ∉ token := by
  rw [convertToken]
  split
  · split
    · rw [replaceChar, replaceChar, List.map_map, List.map_map]
      refine map_eq_map_iff fun sym => ?_
      cases sym with
      | char c => by_cases ho : c = '[' <;> by_cases hc : c = ']' <;> simp [Sym.sql, Sym.n1ql, toSql, ho, hc]
      | opening | closing => simp [Sym.sql, Sym.n1ql, toSql]
    · next hclosing =>
        rw [show toSql.closing = ']' from rfl, closing_mem_n1ql, not_or] at hclosing
        have hreplaced : replaceChar toSql.opening toSql.toOpening (token.map Sym.n1ql) = token.map Sym.sql ↔
            .char '[' ∉ token ∧ .closing ∉ token := by
          rw [replaceChar, List.map_map]
          refine map_eq_map_iff fun sym => ?_
          cases sym with
          | char c => by_cases ho : c = '[' <;> simp [Sym.sql, Sym.n1ql, toSql, ho]
          | opening | closing => simp [Sym.sql, Sym.n1ql, toSql]
        rw [hreplaced, and_iff_left hclosing.1, and_iff_left hclosing.2]
  · next hopening =>
      rw [show toSql.opening = '[' from rfl, opening_mem_n1ql, not_or] at hopening
      rw [and_iff_right hopening.2]
      split
      · have hreplaced : replaceChar ']' ')' (token.map Sym.n1ql) = token.map Sym.sql ↔
            .opening ∉ token ∧ .char ']' ∉ token := by
          rw [replaceChar, List.map_map]
          refine map_eq_map_iff fun sym => ?_
          cases sym with
          | char c => by_cases hc : c = ']' <;> simp [Sym.sql, Sym.n1ql, hc]
          | opening | closing => simp [Sym.sql, Sym.n1ql]
        exact hreplaced.trans (and_iff_right hopening.1)
      · next hclosing =>
          rw [show toSql.closing = ']' from rfl, closing_mem_n1ql, not_or] at hclosing
          exact iff_of_true (map_sql_eq_iff.2 ⟨hopening.1, hclosing.1⟩).symm hclosing.2

theorem value_toBraces_iff (before : List (List Sym)) :
    value toBraces ((before.map (List.map Sym.sql)).foldl (next toBraces) false) (token.map Sym.sql) =
      token.map Sym.n1ql ↔ Converts before token := by
  have harmed := foldl_next_iff toBraces Sym.sql (by decide) before
  cases hflag : (before.map (List.map Sym.sql)).foldl (next toBraces) false with
  | false =>
      have hnot : ¬ Armed ')' Sym.sql before := fun h => by
        have htrue := harmed.2 h
        rw [hflag] at htrue
        cases htrue
      rw [value_false (by decide), map_sql_eq_iff]
      exact ⟨fun h => ⟨fun _ => h, fun h => absurd h hnot, fun h => absurd h hnot, fun h => absurd h hnot⟩,
        fun h => h.unmarked hnot⟩
  | true =>
      have hbehind : Armed ')' Sym.sql before := harmed.1 hflag
      rw [value, Bool.true_or, if_pos rfl]
      by_cases hmem : '(' ∈ token.map Sym.sql
      · rw [convertToken_opening hmem]
        rw [opening_mem_sql] at hmem
        constructor
        · rintro ⟨ho, hc⟩
          exact ⟨fun h => absurd hbehind h, fun _ => ho, fun _ _ => hc, fun _ hno => absurd (hmem.resolve_right ho) hno⟩
        · intro h
          have ho := h.opening hbehind
          exact ⟨ho, h.closing hbehind (hmem.resolve_right ho)⟩
      · rw [convertToken_first hmem]
        rw [opening_mem_sql, not_or] at hmem
        exact ⟨fun h => ⟨fun hnot => absurd hbehind hnot, fun _ => hmem.2, fun _ ho => absurd ho hmem.1, fun _ _ => h⟩,
          fun h => h.first hbehind hmem.1⟩

theorem value_toSql_iff (before : List (List Sym)) :
    value toSql ((before.map (List.map Sym.n1ql)).foldl (next toSql) false) (token.map Sym.n1ql) =
      token.map Sym.sql ↔ Reverts before token := by
  have harmed := foldl_next_iff toSql Sym.n1ql (by decide) before
  cases hflag : (before.map (List.map Sym.n1ql)).foldl (next toSql) false with
  | false =>
      have hnot : ¬ Armed ']' Sym.n1ql before := fun h => by
        have htrue := harmed.2 h
        rw [hflag] at htrue
        cases htrue
      rw [value_false (by decide), eq_comm, map_sql_eq_iff]
      exact ⟨fun h => ⟨fun _ => h, fun h => absurd h hnot⟩, fun h => h.unmarked hnot⟩
  | true =>
      have hbehind : Armed ']' Sym.n1ql before := harmed.1 hflag
      rw [value, Bool.true_or, if_pos rfl, convertToken_brackets]
      exact ⟨fun h => ⟨fun hnot => absurd hbehind hnot, fun _ => h⟩, fun h => h.brackets hbehind⟩

end Token

/-! ## The conversions of a text -/

theorem InText.splitOn_sql (text : InText) : text.sql.splitOn ' ' = text.tokens.map (List.map Sym.sql) := by
  refine SplitOn.splitOn_map (fun sym => ?_) text.syms
  cases sym with
  | char c => by_cases hc : c = ' ' <;> simp [Sym.sql, hc]
  | opening => rfl
  | closing => rfl

theorem InText.splitOn_n1ql (text : InText) : text.n1ql.splitOn ' ' = text.tokens.map (List.map Sym.n1ql) := by
  refine SplitOn.splitOn_map (fun sym => ?_) text.syms
  cases sym with
  | char c => by_cases hc : c = ' ' <;> simp [Sym.n1ql, hc]
  | opening => rfl
  | closing => rfl

theorem spacing_map (token : List Sym) : spacing (token.map Sym.sql) = spacing (token.map Sym.n1ql) := by
  rw [spacing, spacing, List.map_map, List.map_map]
  refine List.map_congr_left fun sym _ => ?_
  cases sym with
  | char c => rfl
  | opening => rfl
  | closing => rfl

/-- The words are those that were to be written if and only if each token is. -/
theorem words_values_iff {v : Conversion} (hv : v.Solid) {tokens wanted : List Text}
    (h : tokens.map spacing = wanted.map spacing) :
    (values v false tokens).flatMap words = wanted.flatMap words ↔ values v false tokens = wanted :=
  ⟨eq_of_words_eq ((map_spacing_values hv false tokens).trans h), congrArg _⟩

theorem InText.map_spacing (text : InText) : (text.tokens.map (List.map Sym.sql)).map spacing =
    (text.tokens.map (List.map Sym.n1ql)).map spacing := by
  rw [List.map_map, List.map_map]
  exact List.map_congr_left fun token _ => spacing_map token

theorem InText.values_there_iff (text : InText) : words (genSqlToN1qlBraces text.sql) = words text.n1ql ↔
    values toBraces false (text.tokens.map (List.map Sym.sql)) = text.tokens.map (List.map Sym.n1ql) := by
  rw [words_eq_flatMap text.n1ql, text.splitOn_n1ql, ← words_values_iff solid_toBraces text.map_spacing,
    ← words_convert, ← text.splitOn_sql]
  rfl

/-- The lists are converted if and only if each token is. -/
theorem InText.words_there_iff (text : InText) : words (genSqlToN1qlBraces text.sql) = words text.n1ql ↔
    ∀ before token after, text.tokens = before ++ token :: after → Converts before token := by
  rw [text.values_there_iff, values_eq_iff]
  refine forall₄_congr fun before token after _ => ?_
  exact value_toBraces_iff before

/-- After that, they are converted back if and only if each token is. -/
theorem InText.words_back_iff (text : InText) (h : words (genSqlToN1qlBraces text.sql) = words text.n1ql) :
    words (genN1qlToSql (genSqlToN1qlBraces text.sql)) = words text.sql ↔
      ∀ before token after, text.tokens = before ++ token :: after → Reverts before token := by
  have hblank : ∀ token ∈ text.tokens.map (List.map Sym.sql), ' ' ∉ token := by
    rw [← text.splitOn_sql]
    exact fun token htoken => SplitOn.not_mem_of_mem_splitOn htoken
  have htwice := words_convert_convert solid_toBraces solid_toSql hblank
  rw [text.values_there_iff.1 h, ← text.splitOn_sql] at htwice
  have hvalues : words (genN1qlToSql (genSqlToN1qlBraces text.sql)) = words text.sql ↔
      values toSql false (text.tokens.map (List.map Sym.n1ql)) = text.tokens.map (List.map Sym.sql) := by
    rw [words_eq_flatMap text.sql, text.splitOn_sql, ← words_values_iff solid_toSql text.map_spacing.symm, ← htwice]
    rfl
  rw [hvalues, values_eq_iff]
  refine forall₄_congr fun before token after _ => ?_
  exact value_toSql_iff before

/-- **When lists are converted and converted back**: if and only if each token of the text has what it takes. -/
theorem converted_iff (text : InText) : Converted text ↔
    ∀ before token after, text.tokens = before ++ token :: after → Converts before token ∧ Reverts before token := by
  rw [Converted, and_congr_right_iff.2 text.words_back_iff, text.words_there_iff]
  exact ⟨fun ⟨hthere, hback⟩ before token after h => ⟨hthere before token after h, hback before token after h⟩,
    fun h => ⟨fun before token after heq => (h before token after heq).1,
      fun before token after heq => (h before token after heq).2⟩⟩

/-- A list with a blank inside is not converted where its end is glued to a value. -/
theorem not_converted_of_glued {text : InText} {before after : List (List Sym)} {token : List Sym}
    (h : text.tokens = before ++ token :: after) (hopening : .opening ∉ token) (hclosing : .closing ∈ token.tail) :
    ¬ Converted text := by
  rintro ⟨hthere, -⟩
  have hconverts := text.words_there_iff.1 hthere before token after h
  by_cases harmed : Armed ')' Sym.sql before
  · exact (hconverts.first harmed hopening).2 hclosing
  · exact (hconverts.unmarked harmed).2 (List.mem_of_mem_tail hclosing)

instance (text : InText) : Decidable (Converted text) := inferInstanceAs (Decidable (_ ∧ _))

/-- `stars IN (4,5) AND city IN ( 'Rome', 'Bern' ) LIMIT 3`. -/
def inCities : InText where
  lists := [
    ⟨"stars ".toList, "IN".toList, by decide, " ".toList, by decide, "4,5".toList, by decide⟩,
    ⟨" AND city ".toList, "IN".toList, by decide, " ".toList, by decide, " 'Rome', 'Bern' ".toList, by decide⟩]
  rest := " LIMIT 3".toList

example : Converted inCities := by decide +kernel

/-- `stars IN (4, 5)`. -/
def inStars : InText where
  lists := [⟨"stars ".toList, "IN".toList, by decide, " ".toList, by decide, "4, 5".toList, by decide⟩]
  rest := []

/-- The list of `stars IN (4, 5)` is left with its closing parenthesis. -/
theorem not_converted : ¬ ∀ text, Converted text := by
  intro h
  have htokens : inStars.tokens = inStars.tokens.take 3 ++ [.char '5', .closing] :: [] := by decide +kernel
  exact not_converted_of_glued htokens (by decide) (by decide) (h inStars)

end QueryHelper
