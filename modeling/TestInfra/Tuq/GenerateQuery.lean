import TestInfra.Lib.Places
import TestInfra.Lib.Replace
import TestInfra.Lib.SplitOn
import TestInfra.Lib.SplitText
import TestInfra.Tuq.TypeArgs

set_option autoImplicit false

/-! # Queries from templates

`generate_query` (`lib/couchbase_helper/tuq_generators.py`) writes the attributes for the placeholders of a template,
one placeholder after the other, and then the keywords in capitals, wherever they are. So a key that is the start of
another one is found in it, and a keyword is found in a name. Where a key is only found as itself, the query is the one
that was asked for if and only if no keyword is written over a letter of a name (`generateQuery_right_iff`). -/

open PyText SplitText Find

namespace Tuq

/-! ## The code -/

/-- `'$%s%s' % (name_type, index)`. -/
def placeholder (nameType : Text) (i : ℕ) : Text := '$' :: (nameType ++ (toString i).toList)

/-- What is replaced, in the order of the loops. -/
def replacements (typeArgs : Dict Text (List Text)) : List (Text × Text) :=
  typeArgs.items.flatMap fun entry =>
    entry.2.map fun attrTypeArg => (placeholder entry.1 (entry.2.idxOf attrTypeArg), attrTypeArg)

def keywords : List Text :=
  [" where ".toList, " select ".toList, " from ".toList, " order by".toList, " limit ".toList, "end".toList,
    " offset ".toList, " count(".toList, "group by".toList, "unnest".toList, "min".toList, "satisfies".toList]

/-- `generate_query`. -/
def generateQuery (typeArgs : Dict Text (List Text)) (template : Text) : Text :=
  let query := (replacements typeArgs).foldl (fun query entry => replace entry.1 entry.2 query) template
  keywords.foldl (fun query expr => replace expr (expr.map Char.toUpper) query) query

/-! ## Templates -/

/-- A part of a template: text, or the placeholder of an attribute. -/
inductive Part where
  | literal (text : Text)
  | attr (nameType : Text) (i : ℕ)
  deriving DecidableEq

def Part.written : Part → Text
  | .literal text => text
  | .attr nameType i => placeholder nameType i

def template (parts : List Part) : Text := parts.flatMap Part.written

/-- The attribute a placeholder is for. -/
def nthAttr (typeArgs : Dict Text (List Text)) (nameType : Text) (i : ℕ) : Text :=
  (((typeArgs.get? nameType).getD [])[i]?).getD []

/-- A part of the query, with a mark on the characters of an attribute. -/
def Part.asked (typeArgs : Dict Text (List Text)) : Part → List (Char × Bool)
  | .literal text => text.map fun c => (c, false)
  | .attr nameType i => (nthAttr typeArgs nameType i).map fun c => (c, true)

def asked (typeArgs : Dict Text (List Text)) (parts : List Part) : List (Char × Bool) :=
  parts.flatMap (Part.asked typeArgs)

/-- One of the keywords is in the text over the place. -/
def InKeyword (text : Text) (p : ℕ) : Prop := ∃ word ∈ keywords, ∃ q, OccursAt word text q ∧ q ≤ p ∧ p < q + word.length

/-- The attributes are in the query as they are, and of the rest only keywords are changed, into capitals. -/
structure Right (query : Text) (asked : List (Char × Bool)) : Prop where
  length : query.length = asked.length
  attr : ∀ (p : ℕ) (c : Char), asked[p]? = some (c, true) → query[p]? = some c
  text : ∀ (p : ℕ) (c : Char), asked[p]? = some (c, false) →
    query[p]? = some c ∨ InKeyword (asked.map Prod.fst) p ∧ query[p]? = some c.toUpper

/-- No letter of an attribute is where a keyword is written in capitals. -/
def Untouched (asked : List (Char × Bool)) : Prop :=
  ∀ (p : ℕ) (c : Char), asked[p]? = some (c, true) → Rewritten keywords (asked.map Prod.fst) p → c.toUpper = c

/-! ## Turns -/

/-- A part after some of the replacements. -/
def Part.shown (done : List (Text × Text)) : Part → Text
  | .literal text => text
  | .attr nameType i => (Assoc.find (placeholder nameType i) done).getD (placeholder nameType i)

/-- The part is the placeholder, and was not replaced yet. -/
def Part.isOpen (done : List (Text × Text)) (key : Text) : Part → Bool
  | .literal _ => false
  | .attr nameType i => placeholder nameType i = key ∧ Assoc.find key done = none

/-- The key of each replacement is found in its turn exactly where the template has its placeholder. -/
def OnlyPlaceholders (parts : List Part) : List (Text × Text) → List (Text × Text) → Prop
  | _, [] => True
  | done, entry :: todo =>
      split entry.1 (parts.flatMap (Part.shown done))
          = (parts.splitOnP (Part.isOpen done entry.1)).map (fun run => run.flatMap (Part.shown done)) ∧
        OnlyPlaceholders parts (done ++ [entry]) todo

instance decidableOnlyPlaceholders (parts : List Part) :
    (done todo : List (Text × Text)) → Decidable (OnlyPlaceholders parts done todo)
  | _, [] => isTrue trivial
  | done, entry :: todo =>
      have := decidableOnlyPlaceholders parts (done ++ [entry]) todo
      inferInstanceAs (Decidable (_ ∧ _))

theorem keywords_untangled : Untangled Char.toUpper keywords := by decide +kernel

/-! ## The run of the replacements -/

theorem shown_concat (done : List (Text × Text)) (entry : Text × Text) (part : Part) :
    part.shown (done ++ [entry]) = if part.isOpen done entry.1 then entry.2 else part.shown done := by
  cases part with
  | literal text => rfl
  | attr nameType i =>
      simp only [Part.shown, Part.isOpen, Assoc.find_append]
      by_cases hkey : placeholder nameType i = entry.1
      · cases hfind : Assoc.find (placeholder nameType i) done with
        | none => simp [hkey ▸ hfind, hkey, Assoc.find]
        | some text => simp [hkey ▸ hfind]
      · cases hfind : Assoc.find (placeholder nameType i) done with
        | none => simp [hkey, Ne.symm hkey, Assoc.find]
        | some text => simp [hkey]

/-- One replacement, in the turn of its key. -/
theorem replace_shown {parts : List Part} {done : List (Text × Text)} {entry : Text × Text} (hkey : entry.1 ≠ [])
    (h : split entry.1 (parts.flatMap (Part.shown done))
      = (parts.splitOnP (Part.isOpen done entry.1)).map fun run => run.flatMap (Part.shown done)) :
    replace entry.1 entry.2 (parts.flatMap (Part.shown done)) = parts.flatMap (Part.shown (done ++ [entry])) := by
  rw [replace_eq_intercalate hkey, h, SplitOn.intercalate_map_splitOnP]
  congr 1
  funext part
  exact (shown_concat done entry part).symm

/-- All of them. -/
theorem foldl_replace {parts : List Part} {done todo : List (Text × Text)} (hkeys : ∀ entry ∈ todo, entry.1 ≠ [])
    (h : OnlyPlaceholders parts done todo) :
    todo.foldl (fun query entry => replace entry.1 entry.2 query) (parts.flatMap (Part.shown done))
      = parts.flatMap (Part.shown (done ++ todo)) := by
  induction todo generalizing done with
  | nil => rw [List.append_nil]; rfl
  | cons entry todo ih =>
      rw [List.forall_mem_cons] at hkeys
      rw [List.foldl_cons, replace_shown hkeys.1 h.1, ih hkeys.2 h.2, List.append_assoc, List.singleton_append]

/-! ## The keys -/

/-- A text that does not end in a digit, and digits behind it. -/
theorem append_digits_inj {a b u v : Text} (ha : ∃ c, a.getLast? = some c ∧ c.isDigit = false)
    (hb : ∃ c, b.getLast? = some c ∧ c.isDigit = false) (hu : ∀ c ∈ u, c.isDigit = true)
    (hv : ∀ c ∈ v, c.isDigit = true) (h : a ++ u = b ++ v) : a = b ∧ u = v := by
  have hend {text w digits : Text} (htext : ∃ c, (text ++ w).getLast? = some c ∧ c.isDigit = false)
      (hdigits : ∀ c ∈ w ++ digits, c.isDigit = true) : w = [] := by
    rcases List.eq_nil_or_concat w with hnil | ⟨w, d, rfl⟩
    · exact hnil
    · obtain ⟨c, hc, hdigit⟩ := htext
      rw [List.concat_eq_append, ← List.append_assoc, List.getLast?_concat] at hc
      obtain rfl := Option.some.inj hc
      have hd := hdigits d (by simp)
      rw [hdigit] at hd
      cases hd
  rcases List.append_eq_append_iff.1 h with ⟨w, rfl, rfl⟩ | ⟨w, rfl, rfl⟩
  · obtain rfl := hend hb hu
    exact ⟨(List.append_nil a).symm, rfl⟩
  · obtain rfl := hend ha hv
    exact ⟨List.append_nil b, rfl⟩

/-- A key says which type and which index it is for. -/
theorem placeholder_inj {a b : Text} {i j : ℕ} (ha : ∃ c, a.getLast? = some c ∧ c.isDigit = false)
    (hb : ∃ c, b.getLast? = some c ∧ c.isDigit = false) (h : placeholder a i = placeholder b j) : a = b ∧ i = j := by
  rw [placeholder, placeholder, List.cons.injEq] at h
  obtain ⟨hname, hdigits⟩ := append_digits_inj ha hb isDigit_of_mem isDigit_of_mem h.2
  exact ⟨hname, toString_toList_injective hdigits⟩

theorem find_replacements {typeArgs : Dict Text (List Text)} (hnamed : ∀ entry ∈ typeArgs.items, Named entry)
    {nameType : Text} {args : List Text} (hargs : typeArgs.get? nameType = some args) {i : ℕ} (hi : i < args.length) :
    Assoc.find (placeholder nameType i) (replacements typeArgs) = some args[i] := by
  have hentry : (nameType, args) ∈ typeArgs.items := (Dict.get?_eq_some_iff typeArgs nameType args).1 hargs
  have hmem : (placeholder nameType i, args[i]) ∈ replacements typeArgs := by
    refine List.mem_flatMap.2 ⟨_, hentry, List.mem_map.2 ⟨args[i], List.getElem_mem hi, ?_⟩⟩
    rw [(hnamed _ hentry).nodup.idxOf_getElem]
  have honly : ∀ entry ∈ replacements typeArgs, entry.1 = placeholder nameType i → entry.2 = args[i] := by
    intro entry hmem hkey
    obtain ⟨other, hother, hmem⟩ := List.mem_flatMap.1 hmem
    obtain ⟨attr, hattr, rfl⟩ := List.mem_map.1 hmem
    obtain ⟨hname, hindex⟩ := placeholder_inj (hnamed other hother).last (hnamed _ hentry).last hkey
    have hsame : other.2 = args := by
      have hget := (Dict.get?_eq_some_iff typeArgs other.1 other.2).2 hother
      rw [hname, hargs] at hget
      exact (Option.some.inj hget).symm
    subst hsame
    subst hindex
    exact (List.getElem_idxOf hi).symm
  have hfound : (Assoc.find (placeholder nameType i) (replacements typeArgs)).isSome :=
    (Assoc.find_isSome_iff _ _).2 (List.mem_map.2 ⟨_, hmem, rfl⟩)
  obtain ⟨attr, hattr⟩ := Option.isSome_iff_exists.1 hfound
  obtain ⟨before, after, hsplit⟩ := Assoc.exists_append_of_find hattr
  have hsame : attr = args[i] := honly (placeholder nameType i, attr) (by rw [hsplit]; simp) rfl
  rw [hattr, hsame]

theorem map_fst_mark (mark : Bool) (text : Text) : (text.map fun c => (c, mark)).map Prod.fst = text := by
  rw [List.map_map]
  exact List.map_id text

/-- The query before the keywords are written. -/
theorem fillIn_eq {typeArgs : Dict Text (List Text)} (hnamed : ∀ entry ∈ typeArgs.items, Named entry)
    {parts : List Part}
    (hattrs : ∀ nameType i, .attr nameType i ∈ parts → ∃ args, typeArgs.get? nameType = some args ∧ i < args.length)
    (honly : OnlyPlaceholders parts [] (replacements typeArgs)) :
    (replacements typeArgs).foldl (fun query entry => replace entry.1 entry.2 query) (template parts)
      = (asked typeArgs parts).map Prod.fst := by
  have hkeys : ∀ entry ∈ replacements typeArgs, entry.1 ≠ [] := by
    intro entry hentry
    obtain ⟨other, -, hentry⟩ := List.mem_flatMap.1 hentry
    obtain ⟨attr, -, rfl⟩ := List.mem_map.1 hentry
    exact List.cons_ne_nil _ _
  have hfirst : template parts = parts.flatMap (Part.shown []) := by
    refine List.flatMap_congr fun part _ => ?_
    cases part <;> rfl
  have hlast : ∀ part ∈ parts, part.shown (replacements typeArgs) = (part.asked typeArgs).map Prod.fst := by
    intro part hpart
    cases part with
    | literal text => rw [Part.shown, Part.asked, map_fst_mark]
    | attr nameType i =>
        obtain ⟨args, hargs, hi⟩ := hattrs nameType i hpart
        rw [Part.shown, Part.asked, map_fst_mark, find_replacements hnamed hargs hi]
        simp [nthAttr, hargs, hi]
  rw [hfirst, foldl_replace hkeys honly, List.nil_append, asked, List.map_flatMap]
  exact List.flatMap_congr hlast

/-! ## The query that was asked for -/

theorem getElem?_of_asked {asked : List (Char × Bool)} {p : ℕ} {c : Char} {mark : Bool}
    (h : asked[p]? = some (c, mark)) : (asked.map Prod.fst)[p]? = some c := by
  rw [List.getElem?_map, h]
  rfl

/-- **Where the keys are found as placeholders only, the query is the one that was asked for if and only if no keyword
    is written over a letter of an attribute.** -/
theorem generateQuery_right_iff {doc : Dict Text Field} {typeArgs : Dict Text (List Text)}
    (hinit : initTypeArgs doc = some typeArgs) {parts : List Part}
    (hattrs : ∀ nameType i, .attr nameType i ∈ parts → ∃ args, typeArgs.get? nameType = some args ∧ i < args.length)
    (honly : OnlyPlaceholders parts [] (replacements typeArgs)) :
    Right (generateQuery typeArgs (template parts)) (asked typeArgs parts) ↔ Untouched (asked typeArgs parts) := by
  have hchar (p : ℕ) : (generateQuery typeArgs (template parts))[p]?
      = if Rewritten keywords ((asked typeArgs parts).map Prod.fst) p then
          (((asked typeArgs parts).map Prod.fst)[p]?).map Char.toUpper
        else ((asked typeArgs parts).map Prod.fst)[p]? := by
    rw [generateQuery, fillIn_eq (named_of_init hinit) hattrs honly]
    exact getElem?_rewrite keywords_untangled (by decide) _ p
  generalize generateQuery typeArgs (template parts) = query at hchar ⊢
  generalize asked typeArgs parts = asked at hchar ⊢
  have hlength : query.length = asked.length :=
    (length_eq_of_getElem? hchar).trans (List.length_map _)
  constructor
  · intro hright p c hp hrewritten
    have hquery := hright.attr p c hp
    rw [hchar, if_pos hrewritten, getElem?_of_asked hp] at hquery
    exact Option.some.inj hquery
  · intro huntouched
    refine ⟨hlength, fun p c hp => ?_, fun p c hp => ?_⟩
    · rw [hchar, getElem?_of_asked hp]
      split
      · next hrewritten => rw [Option.map_some, huntouched p c hp hrewritten]
      · rfl
    · rw [hchar, getElem?_of_asked hp]
      split
      · next hrewritten =>
          obtain ⟨word, hword, q, hq, hqp⟩ := hrewritten
          exact .inr ⟨⟨word, hword, q, occursAt_of_mem_places hq, hqp⟩, rfl⟩
      · exact .inl rfl

section Names

/-- A document with a text under each of the names. -/
def documentOf (names : List Text) : Dict Text Field := dictOf (names.map fun name => (name, .str []))

def typeArgsOf (doc : Dict Text Field) : Dict Text (List Text) := (initTypeArgs doc).getD ∅

theorem initTypeArgs_eq {doc : Dict Text Field} (h : (initTypeArgs doc).isSome) :
    initTypeArgs doc = some (typeArgsOf doc) := by
  obtain ⟨typeArgs, htypeArgs⟩ := Option.isSome_iff_exists.1 h
  rw [typeArgsOf, htypeArgs]
  rfl

def letters : Dict Text Field := documentOf ("abcdefghijk".toList.map fun c => [c])

/-- `SELECT $str10 FROM b`. -/
def longIndex : List Part := [.literal "SELECT ".toList, .attr "str".toList 10, .literal " FROM b".toList]

def people : Dict Text Field := documentOf ["gender".toList, "city".toList]

/-- `SELECT $str0 FROM b`. -/
def selectGender : List Part := [.literal "SELECT ".toList, .attr "str".toList 0, .literal " FROM b".toList]

/-- `SELECT $str1 from b`. -/
def selectCity : List Part := [.literal "SELECT ".toList, .attr "str".toList 1, .literal " from b".toList]

/-- The key `$str1` is found in `$str10`, and `end` is found in `gender`. -/
theorem generateQuery_letters :
    (initTypeArgs letters = some (typeArgsOf letters) ∧
        ¬ Right (generateQuery (typeArgsOf letters) (template longIndex)) (asked (typeArgsOf letters) longIndex)) ∧
      initTypeArgs people = some (typeArgsOf people) ∧
        ¬ Right (generateQuery (typeArgsOf people) (template selectGender))
          (asked (typeArgsOf people) selectGender) := by
  refine ⟨⟨initTypeArgs_eq (by decide +kernel), fun h => ?_⟩, initTypeArgs_eq (by decide +kernel), fun h => ?_⟩
  · exact absurd h.length (by decide +kernel)
  · exact absurd (h.attr 8 'e' (by decide +kernel)) (by decide +kernel)

/-- Only `from` is written in capitals, and the name `city` stays. -/
theorem generateQuery_right_city :
    Right (generateQuery (typeArgsOf people) (template selectCity)) (asked (typeArgsOf people) selectCity) := by
  have hattrs : ∀ nameType i, .attr nameType i ∈ selectCity →
      ∃ args, (typeArgsOf people).get? nameType = some args ∧ i < args.length := by
    intro nameType i hmem
    have hpart : Part.attr nameType i = .attr "str".toList 1 := by simpa [selectCity] using hmem
    obtain ⟨rfl, rfl⟩ := Part.attr.inj hpart
    exact ⟨["gender".toList, "city".toList], by decide +kernel, by decide⟩
  refine (generateQuery_right_iff (initTypeArgs_eq (by decide +kernel)) hattrs (by decide +kernel)).2 ?_
  have hfree : ∀ p < (asked (typeArgsOf people) selectCity).length,
      (asked (typeArgsOf people) selectCity)[p]?.map Prod.snd = some true →
        ¬ Rewritten keywords ((asked (typeArgsOf people) selectCity).map Prod.fst) p := by decide +kernel
  intro p c hc hrewritten
  exact absurd hrewritten (hfree p (List.getElem?_eq_some_iff.1 hc).1 (congrArg (Option.map Prod.snd) hc))

end Names

end Tuq
