import TestInfra.Lib.Dict
import TestInfra.Lib.PyInt
import TestInfra.Lib.Regex

set_option autoImplicit false

/-! # Parameter strings

`TestInputParser.get_test_input` reads the `-p` option, a text such as `p1=v1,v2,p2=v3`, into a dictionary, and
`testrunner.main` reads the parameters of a test from its line in a conf file with the same pattern. A comma
separates both parameters and the words of a value; the pattern `[,]?([^,=]+)=` finds the names.

`getTestParams_render` is the round trip: a text rendered from parameters is parsed back into them. -/

namespace TestInfra.TestInput

open PyText Regex

/-! ## The parser -/

/-- `[^,=]`. -/
def notSeparator (c : Char) : Bool := c ≠ ',' && c ≠ '='

/-- `[,]?([^,=]+)=`. -/
def paramPattern : Regex Char :=
  .seq (.opt (· = ',')) (.seq (.group (.many notSeparator)) (.one (· = '=')))

/-- `[a.strip() for a in re.split("[,]?([^,=]+)=", argument)[1:]]`. -/
def argumentSplit (argument : Text) : List Text := (paramPattern.split argument).tail.map strip

/-- `list(zip(l[::2], l[1::2]))`. -/
def zipAlternate : List Text → List (Text × Text)
  | a :: b :: rest => (a, b) :: zipAlternate rest
  | _ => []

/-- `dict(list(zip(argument_split[::2], argument_split[1::2])))`, which is all `testrunner.main` does. -/
def pairs (argument : Text) : Dict Text Text :=
  (zipAlternate (argumentSplit argument)).foldl (fun d p => d.set p.1 p.2) ∅

/-- The value of a parameter in `test_params`. -/
inductive ParamValue where
  | str (text : Text)
  | words (texts : List Text)
  | ints (numbers : List ℤ)
deriving DecidableEq, Repr

/-- `list(range(int(r[0]), int(r[-1]) + 1))` where `r = v.split("-")`. -/
def vbucketRange (v : Text) : Option (List ℤ) := do
  let r := v.splitOn '-'
  let first ← readInt (r.headD [])
  let last ← readInt (r.getLastD [])
  pure ((List.range (last + 1 - first).toNat).map fun i => first + (i : ℤ))

/-- The body of `for pair in list(pairs.items())`. -/
def storePair (params : Dict Text ParamValue) (pair : Text × Text) : Option (Dict Text ParamValue) :=
  if pair.1 = "vbuckets".toList then do
    let ranges ← (pair.2.splitOn ',').mapM vbucketRange
    pure (params.set pair.1 (.ints (ranges.flatten.dedup.mergeSort (· ≤ ·))))
  else
    let argumentList := (pair.2.splitOn ',').map strip
    if argumentList.length > 1 then some (params.set pair.1 (.words argumentList))
    else some (params.set pair.1 (.str (argumentList.headD [])))

/-- The `-p` options of `get_test_input`; `none` when `int` raises. -/
def getTestParams (opts : List (Text × Text)) : Option (Dict Text ParamValue) :=
  opts.foldlM (fun params opt =>
    if opt.1 = "-p".toList then (pairs opt.2).items.foldlM storePair params else some params) ∅

/-! ## Parameters as they are written -/

/-- A word of a value. It may be empty. -/
structure IsWord (w : Text) : Prop where
  no_comma : ',' ∉ w
  no_equals : '=' ∉ w
  trimmed : Trimmed w

/-- A parameter: a name and the words of its value. -/
structure Param where
  name : Text
  words : List Text
  name_ne : name ≠ []
  name_word : IsWord name
  words_ne : words ≠ []
  words_word : ∀ w ∈ words, IsWord w

namespace Param

/-- The value as it is written. -/
def text (p : Param) : Text := join ',' p.words

/-- The value as it is stored: a single word is a string. -/
def value (p : Param) : ParamValue :=
  match p.words with
  | [w] => .str w
  | ws => .words ws

/-- `name=value`. -/
def rendered (p : Param) : Text := p.name ++ '=' :: p.text

end Param

/-- `n1=v1,n2=v2,..`. -/
def render (ps : List Param) : Text := join ',' (ps.map Param.rendered)

/-! ## The pattern -/

theorem notSeparator_iff (c : Char) : notSeparator c = true ↔ c ≠ ',' ∧ c ≠ '=' := by
  simp [notSeparator]

/-- What stands behind the `=` a text starts with. -/
def afterEquals : Text → Option Text
  | [] => none
  | c :: rest => if c = '=' then some rest else none

/-- The text without the comma it may start with. -/
def dropComma : Text → Text
  | [] => []
  | c :: rest => if c = ',' then rest else c :: rest

/-- The run of characters other than the separators a text starts with, when an `=` follows it. -/
def nameAt (text : Text) : Option (List Text × Text) :=
  if text.takeWhile notSeparator = [] then none
  else (afterEquals (text.dropWhile notSeparator)).map fun rest => ([text.takeWhile notSeparator], rest)

/-- No `=` can follow a part of a run, so the group takes it whole. -/
theorem run_name (text : Text) :
    run (.seq (.group (.many notSeparator)) (.one (· = '='))) (fun groups rest => some (groups, rest)) [] text
      = nameAt text := by
  have hblocked : ∀ (groups : List Text) c rest, notSeparator c = true →
      run (.one (· = '=')) (fun groups rest => some (groups, rest)) groups (c :: rest) = none := by
    intro groups c rest hc
    have hne : c ≠ '=' := ((notSeparator_iff c).1 hc).2
    simp [run, hne]
  rw [run, run_group_many hblocked, nameAt]
  rcases text.dropWhile notSeparator with _ | ⟨c, rest⟩
  · rfl
  · by_cases hc : c = '=' <;> simp [run, afterEquals, hc]

/-- A comma is no part of a name, so it is taken as the optional one. -/
theorem matchAt_paramPattern (text : Text) : matchAt paramPattern text = nameAt (dropComma text) := by
  rw [matchAt, paramPattern, run]
  rcases text with _ | ⟨c, rest⟩
  · exact run_name []
  · by_cases hc : c = ','
    · have hcomma : nameAt (c :: rest) = none := by
        rw [nameAt, if_pos]
        exact List.takeWhile_cons_of_neg (by simp [notSeparator, hc])
      rw [run_opt_cons, if_pos (decide_eq_true hc), run_name, run_name, hcomma, Option.or_none, dropComma,
        if_pos hc]
    · rw [run_opt_cons, if_neg (by simpa using hc), run_name, dropComma, if_neg hc]

theorem nameAt_of_name {name : Text} (hne : name ≠ []) (hname : IsWord name) (rest : Text) :
    nameAt (name ++ '=' :: rest) = some ([name], rest) := by
  have hall : ∀ c ∈ name, notSeparator c = true := by
    intro c hc
    rw [notSeparator_iff]
    refine ⟨?_, ?_⟩
    · rintro rfl
      exact hname.no_comma hc
    · rintro rfl
      exact hname.no_equals hc
  have htake : (name ++ '=' :: rest).takeWhile notSeparator = name := by
    rw [List.takeWhile_append_of_pos hall]
    simp [notSeparator]
  have hdrop : (name ++ '=' :: rest).dropWhile notSeparator = '=' :: rest := by
    rw [List.dropWhile_append_of_pos hall]
    simp [notSeparator]
  rw [nameAt, htake, hdrop, if_neg hne]
  rfl

/-- What stands between two parameters, or after the last one. -/
def Separated (tail : Text) : Prop := ∀ c ∈ tail.head?, c = ','

/-- A run that a comma or the end of the text follows is no name. -/
theorem nameAt_of_value {u tail : Text} (hu : '=' ∉ u) (htail : Separated tail) :
    nameAt (u ++ tail) = none := by
  have hafter : afterEquals ((u ++ tail).dropWhile notSeparator) = none := by
    induction u with
    | nil =>
        rcases tail with _ | ⟨c, tail⟩
        · rfl
        · obtain rfl := htail c rfl
          simp [notSeparator, afterEquals]
    | cons c u ih =>
        rw [List.mem_cons, not_or] at hu
        rw [List.cons_append, List.dropWhile_cons]
        split
        · exact ih hu.2
        · rw [afterEquals, if_neg (Ne.symm hu.1)]
  rw [nameAt, hafter, Option.map_none, ite_self]

/-- No name starts inside a value. -/
theorem skips_value {u tail : Text} (hu : '=' ∉ u) (htail : Separated tail) :
    Skips paramPattern u tail := by
  intro s hs hsuffix
  have hno : '=' ∉ s := fun h => hu (hsuffix.subset h)
  rw [matchAt_paramPattern]
  obtain ⟨c, s, rfl⟩ := List.exists_cons_of_ne_nil hs
  rw [List.cons_append, dropComma]
  split
  · exact nameAt_of_value (fun h => hno (List.mem_cons_of_mem _ h)) htail
  · exact nameAt_of_value hno htail

theorem consumes_paramPattern : Consumes paramPattern := by
  intro text groups rest h
  have hdrop : (dropComma text).length ≤ text.length := by
    rcases text with _ | ⟨c, text⟩
    · exact le_rfl
    · rw [dropComma]
      split
      · exact Nat.le_succ _
      · exact le_rfl
  rw [matchAt_paramPattern, nameAt] at h
  split at h
  · cases h
  · obtain ⟨rest', hafter, heq⟩ := Option.map_eq_some_iff.1 h
    cases heq
    have hlen : ((dropComma text).dropWhile notSeparator).length ≤ (dropComma text).length :=
      (List.dropWhile_suffix _).length_le
    rcases hdw : (dropComma text).dropWhile notSeparator with _ | ⟨c, tail⟩
    · rw [hdw] at hafter
      cases hafter
    · rw [hdw, afterEquals] at hafter
      split at hafter
      · cases hafter
        rw [hdw, List.length_cons] at hlen
        omega
      · cases hafter

/-! ## Splitting what was rendered -/

namespace Param

theorem no_equals_text (p : Param) : '=' ∉ p.text := by
  intro h
  rcases mem_join h with h | ⟨w, hw, h⟩
  · exact absurd h (by decide)
  · exact (p.words_word w hw).no_equals h

theorem trimmed_text (p : Param) : Trimmed p.text :=
  trimmed_join (by decide) fun w hw => (p.words_word w hw).trimmed

theorem splitOn_text (p : Param) : p.text.splitOn ',' = p.words :=
  List.splitOn_intercalate ',' (fun w hw => (p.words_word w hw).no_comma) p.words_ne

/-- The words of the value, stripped, are the words. -/
theorem map_strip_words (p : Param) : p.words.map strip = p.words := by
  have hstrip : ∀ w ∈ p.words, strip w = w := fun w hw => (p.words_word w hw).trimmed.strip_eq
  rw [List.map_congr_left hstrip, List.map_id']

end Param

/-- The parameters as they follow something: each one behind a comma. -/
def renderRest (ps : List Param) : Text := ps.flatMap fun p => ',' :: p.rendered

theorem render_cons (p : Param) (rest : List Param) : render (p :: rest) = p.rendered ++ renderRest rest := by
  induction rest generalizing p with
  | nil => simp [render, renderRest]
  | cons q rest ih =>
      have hstep : render (p :: q :: rest) = p.rendered ++ ',' :: render (q :: rest) := join_cons_cons _ _ _ _
      rw [hstep, ih q]
      rfl

theorem separated_renderRest (ps : List Param) : Separated (renderRest ps) := by
  intro c hc
  rcases ps with _ | ⟨p, rest⟩
  · cases hc
  · cases hc
    rfl

/-- The names and the values in turn. -/
def flat (ps : List Param) : List Text := ps.flatMap fun p => [p.name, p.text]

/-- Splitting a value and the parameters after it: the value comes first, the rest follows. -/
theorem split_renderRest {u : Text} (hu : '=' ∉ u) (ps : List Param) :
    split paramPattern (u ++ renderRest ps) = u :: flat ps := by
  induction ps generalizing u with
  | nil =>
      rw [split_eq consumes_paramPattern, renderRest, List.flatMap_nil, List.append_nil,
        search_of_skips (skips_value hu (fun c hc => nomatch hc))]
      rfl
  | cons p rest ih =>
      have hmatch : matchAt paramPattern (renderRest (p :: rest))
          = some ([p.name], p.text ++ renderRest rest) := by
        have htext : dropComma (renderRest (p :: rest)) = p.name ++ '=' :: (p.text ++ renderRest rest) := by
          simp [renderRest, Param.rendered, dropComma]
        rw [matchAt_paramPattern, htext, nameAt_of_name p.name_ne p.name_word]
      have hne : renderRest (p :: rest) ≠ [] := by simp [renderRest]
      rw [split_eq consumes_paramPattern,
        search_of_match (skips_value hu (separated_renderRest _)) hne hmatch]
      simp only [ih p.no_equals_text]
      rfl

/-- A rendered text splits into nothing and the names and values. -/
theorem split_render (ps : List Param) : split paramPattern (render ps) = [] :: flat ps := by
  rcases ps with _ | ⟨p, rest⟩
  · rfl
  · have hmatch : matchAt paramPattern (render (p :: rest))
        = some ([p.name], p.text ++ renderRest rest) := by
      have htext : render (p :: rest) = p.name ++ '=' :: (p.text ++ renderRest rest) := by
        rw [render_cons, Param.rendered, List.append_assoc, List.cons_append]
      obtain ⟨c, name, hname⟩ := List.exists_cons_of_ne_nil p.name_ne
      have hcomma : c ≠ ',' := by
        rintro rfl
        exact p.name_word.no_comma (by rw [hname]; exact List.mem_cons_self)
      have hdrop : dropComma (render (p :: rest)) = render (p :: rest) := by
        rw [htext, hname, List.cons_append, dropComma, if_neg hcomma]
      rw [matchAt_paramPattern, hdrop, htext, nameAt_of_name p.name_ne p.name_word]
    have hne : render (p :: rest) ≠ [] := by
      rw [render_cons]
      simp [Param.rendered]
    have hskip : Skips paramPattern [] (render (p :: rest)) :=
      fun s hs hsuffix => absurd (List.suffix_nil.1 hsuffix) hs
    have hsearch := search_of_match hskip hne hmatch
    rw [List.nil_append] at hsearch
    rw [split_eq consumes_paramPattern, hsearch]
    simp only [split_renderRest p.no_equals_text]
    rfl

/-! ## The dictionaries -/

theorem map_strip_flat (ps : List Param) : (flat ps).map strip = flat ps := by
  induction ps with
  | nil => rfl
  | cons p rest ih =>
      have hcons : flat (p :: rest) = p.name :: p.text :: flat rest := rfl
      rw [hcons, List.map_cons, List.map_cons, ih, p.name_word.trimmed.strip_eq, p.trimmed_text.strip_eq]

theorem zipAlternate_flat (ps : List Param) : zipAlternate (flat ps) = ps.map fun p => (p.name, p.text) := by
  induction ps with
  | nil => rfl
  | cons p rest ih =>
      have hcons : flat (p :: rest) = p.name :: p.text :: flat rest := rfl
      rw [hcons, zipAlternate, ih]
      rfl

/-- Whatever stands before the first name is dropped. -/
theorem items_pairs {argument before : Text} {ps : List Param}
    (hsplit : split paramPattern argument = before :: flat ps) (hnod : (ps.map Param.name).Nodup) :
    (pairs argument).items = ps.map fun p => (p.name, p.text) := by
  have hfst : (ps.map fun p => (p.name, p.text)).map Prod.fst = ps.map Param.name := by
    rw [List.map_map]
    rfl
  rw [pairs, argumentSplit, hsplit, List.tail_cons, map_strip_flat, zipAlternate_flat,
    Dict.items_foldl_set (by rw [hfst]; exact hnod) (fun k _ => by simp)]
  rfl

theorem storePair_param (params : Dict Text ParamValue) {p : Param} (hp : p.name ≠ "vbuckets".toList) :
    storePair params (p.name, p.text) = some (params.set p.name p.value) := by
  rw [storePair, if_neg hp]
  simp only [p.splitOn_text, p.map_strip_words, Param.value]
  rcases hwords : p.words with _ | ⟨w, _ | ⟨w', rest⟩⟩
  · exact absurd hwords p.words_ne
  · rfl
  · rfl

theorem foldlM_storePair (ps : List Param) (hps : ∀ p ∈ ps, p.name ≠ "vbuckets".toList)
    (params : Dict Text ParamValue) :
    (ps.map fun p => (p.name, p.text)).foldlM storePair params
      = some ((ps.map fun p => (p.name, p.value)).foldl (fun d p => d.set p.1 p.2) params) := by
  induction ps generalizing params with
  | nil => rfl
  | cons p rest ih =>
      rw [List.map_cons, List.foldlM_cons, storePair_param params (hps p List.mem_cons_self)]
      exact ih (fun q hq => hps q (List.mem_cons_of_mem _ hq)) _

/-- **Rendered parameters parse back**: through the `-p` option into the mapping from the names to the values
    (a string for one word, else the list of the words), and behind the name of a test into the names with
    the values as they were written. -/
theorem getTestParams_render (ps : List Param) (hnod : (ps.map Param.name).Nodup)
    (hps : ∀ p ∈ ps, p.name ≠ "vbuckets".toList) {test : Text} (htest : '=' ∉ test) :
    (getTestParams [("-p".toList, render ps)]).map Dict.items
        = some (ps.map fun p => (p.name, p.value)) ∧
      (pairs (test ++ ',' :: render ps)).items = ps.map fun p => (p.name, p.text) := by
  refine ⟨?_, ?_⟩
  · have hitems := items_pairs (split_render ps) hnod
    have hfst : (ps.map fun p => (p.name, p.value)).map Prod.fst = ps.map Param.name := by
      rw [List.map_map]
      rfl
    have hnew := Dict.items_foldl_set (d := ∅) (by rw [hfst]; exact hnod)
      (fun k _ => by simp) (l := ps.map fun p => (p.name, p.value))
    simp only [getTestParams, List.foldlM_cons, List.foldlM_nil, if_pos, hitems, foldlM_storePair ps hps,
      Option.pure_def, Option.bind_eq_bind, Option.bind_some, Option.map_some, hnew]
    rfl
  · rcases ps with _ | ⟨p, rest⟩
    · -- without parameters the comma is a part of what is dropped
      have hu : '=' ∉ test ++ [','] := by simp [htest]
      have hsplit := split_renderRest hu []
      rw [renderRest, List.flatMap_nil, List.append_nil] at hsplit
      exact items_pairs hsplit hnod
    · have htext : test ++ ',' :: render (p :: rest) = test ++ renderRest (p :: rest) := by
        rw [render_cons]
        rfl
      rw [htext]
      exact items_pairs (split_renderRest htest _) hnod

/-- The parameters `p1=v1,,v2` and `p2=` behind the name `test`. -/
def sampleParams : List Param :=
  [⟨"p1".toList, ["v1".toList, [], "v2".toList], by decide, ⟨by decide, by decide, by decide⟩, by decide,
      by simpa using ⟨⟨by decide, by decide, by decide⟩, ⟨by decide, by decide, by decide⟩,
        ⟨by decide, by decide, by decide⟩⟩⟩,
    ⟨"p2".toList, [[]], by decide, ⟨by decide, by decide, by decide⟩, by decide,
      by simpa using ⟨by decide, by decide, by decide⟩⟩]

theorem getTestParams_render_sample :
    (getTestParams [("-p".toList, render sampleParams)]).map Dict.items
        = some (sampleParams.map fun p => (p.name, p.value)) ∧
      (pairs ("test".toList ++ ',' :: render sampleParams)).items
        = sampleParams.map fun p => (p.name, p.text) :=
  getTestParams_render sampleParams (by decide) (by decide) (by decide)

end TestInfra.TestInput
