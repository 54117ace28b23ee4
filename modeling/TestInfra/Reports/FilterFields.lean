import TestInfra.Reports.Merge
import Mathlib.Algebra.Order.BigOperators.Group.List
import Mathlib.Algebra.Order.Ring.Nat

set_option autoImplicit false

/-! # The parameters that `filter_fields` removes

A test is named by its parameters, `name=value` or, where the name contains `logs_folder:`, `name:value`.
`filter_fields` is to remove the fields of the run and the parameters given on its command line. It removes what
**starts** with one of these names. For the fields it puts the separator behind the name first; for the parameters
of the run it does not, and `x=1` on the command line removes `xy=2` from the name of the test.

The branch for `name:value` writes a comma behind every word that differs from the last one, so that an earlier
occurrence of the last word runs into what follows. -/

namespace TestInfra.Reports

open PyText

/-! ## Names in two forms -/

/-- A parameter, or, without a value, a word such as the path of the test. -/
structure Field where
  name : Text
  value : Option Text
deriving DecidableEq, Repr

/-- The parameter with this separator. -/
def Field.render (mark : Char) (f : Field) : Text :=
  match f.value with
  | none => f.name
  | some value => f.name ++ mark :: value

/-- What the parameter is can be read off the text. -/
def Field.Plain (mark : Char) (f : Field) : Prop :=
  f.name ≠ [] ∧ ',' ∉ f.name ∧ mark ∉ f.name ∧ ∀ value ∈ f.value, ',' ∉ value

instance (mark : Char) (f : Field) : Decidable (f.Plain mark) :=
  inferInstanceAs (Decidable (_ ∧ _ ∧ _ ∧ _))

/-- The name of a test. -/
def render (mark : Char) (fields : List Field) : Text := join ',' (fields.map (Field.render mark))

/-- The test that decides between the two forms. -/
def hasLogsFolder (testname : Text) : Bool := "logs_folder:".toList <:+: testname

/-- The parameters can be given in this form. -/
def Given (mark : Char) (fields : List Field) : Prop :=
  (∀ f ∈ fields, f.Plain mark) ∧ (hasLogsFolder (render mark fields) = true ↔ mark = ':')

/-- The names of the parameters of the run. -/
def runNames (runParams : Text) : List Text := (runParams.splitOn ',').map fun param => (param.splitOn '=').headD []

/-- Not one of the parameters that are to be removed. -/
def Field.Stays (runParams : Text) (f : Field) : Prop :=
  f.value.isSome → f.name ∉ filterTestFields ∧ f.name ∉ runNames runParams

instance (runParams : Text) (f : Field) : Decidable (f.Stays runParams) :=
  inferInstanceAs (Decidable (_ → _))

/-- The name with exactly these parameters removed. -/
def expected (runParams : Text) (fields : List Field) : Text :=
  render '=' (fields.filter fun f => f.Stays runParams)

/-- **What filtering is for**: it removes these parameters from both forms of a name and keeps the others in order,
    and both forms of a test have one filtered name. -/
def FiltersExactly (runParams : Text) (fields : List Field) : Prop :=
  (∀ mark ∈ ['=', ':'], Given mark fields → filterFields (render mark fields) runParams = expected runParams fields) ∧
    (Given '=' fields → Given ':' fields →
      filterFields (render ':' fields) runParams = filterFields (render '=' fields) runParams)

/-! ## What is removed -/

/-- What stays does not start with the name of a parameter of the run. -/
def NoSpill (mark : Char) (runParams : Text) (fields : List Field) : Prop :=
  ∀ f ∈ fields, f.Stays runParams → ∀ name ∈ runNames runParams, name ≠ [] → ¬ name <+: f.render mark

/-- The last word, if it stays, occurs once. -/
def NoRepeat (mark : Char) (runParams : Text) (fields : List Field) : Prop :=
  ∀ f ∈ fields.getLast?, f.Stays runParams → f.render mark ∉ fields.dropLast.map (Field.render mark)

theorem takeWhile_mark {mark : Char} {a : Text} (ha : mark ∉ a) (rest : Text) :
    (a ++ mark :: rest).takeWhile (· ≠ mark) = a := by
  rw [List.takeWhile_append_of_pos, List.takeWhile_cons_of_neg, List.append_nil]
  · simp
  · intro c hc
    exact decide_eq_true fun h => ha (h ▸ hc)

/-- A name with the separator behind it is the beginning of its own parameters. -/
theorem prefix_render_iff {mark : Char} {a : Text} (ha : mark ∉ a) {f : Field} (hf : f.Plain mark) :
    a ++ [mark] <+: f.render mark ↔ f.value.isSome ∧ f.name = a := by
  obtain ⟨-, -, hname, -⟩ := hf
  rw [Field.render]
  rcases f.value with _ | value
  · refine ⟨?_, fun h => absurd h.1 (by simp)⟩
    rintro ⟨rest, h⟩
    have hmem : mark ∈ a ++ [mark] ++ rest := by simp
    rw [h] at hmem
    exact absurd hmem hname
  · refine ⟨?_, ?_⟩
    · rintro ⟨rest, h⟩
      rw [List.append_assoc, List.singleton_append] at h
      have htake := congrArg (List.takeWhile (· ≠ mark)) h
      rw [takeWhile_mark ha, takeWhile_mark hname] at htake
      exact ⟨rfl, htake.symm⟩
    · rintro ⟨-, rfl⟩
      exact ⟨value, by rw [List.append_assoc, List.singleton_append]⟩

theorem mark_not_mem_fields {mark : Char} (hmark : mark ∈ ['=', ':']) : ∀ name ∈ filterTestFields, mark ∉ name := by
  rcases List.mem_cons.1 hmark with rfl | hmark
  · decide
  · rw [List.mem_singleton.1 hmark]
    decide

/-- What is removed: the fields of the run, and whatever starts with the name of one of its parameters. -/
theorem filterWord_iff {mark : Char} (hmark : mark ∈ ['=', ':']) {f : Field} (hf : f.Plain mark) (runParams : Text) :
    filterWord (filterTestParams mark runParams) (f.render mark) = true ↔
      f.value.isSome ∧ f.name ∈ filterTestFields ∨ ∃ name ∈ runNames runParams, name ≠ [] ∧ name <+: f.render mark := by
  rw [filterWord, filterTestParams, List.any_append, Bool.or_eq_true, List.any_eq_true, List.any_eq_true]
  refine or_congr ?_ ?_
  · constructor
    · rintro ⟨word, hword, h⟩
      obtain ⟨a, ha, rfl⟩ := List.mem_map.1 hword
      rw [Bool.and_eq_true, List.isPrefixOf_iff_prefix, prefix_render_iff (mark_not_mem_fields hmark a ha) hf] at h
      exact ⟨h.2.1, h.2.2 ▸ ha⟩
    · rintro ⟨hvalue, hname⟩
      refine ⟨f.name ++ [mark], List.mem_map_of_mem hname, ?_⟩
      rw [Bool.and_eq_true, List.isPrefixOf_iff_prefix, prefix_render_iff (mark_not_mem_fields hmark _ hname) hf]
      exact ⟨by simp, hvalue, rfl⟩
  · refine exists_congr fun name => and_congr_right fun _ => ?_
    rw [Bool.and_eq_true, List.isPrefixOf_iff_prefix, decide_eq_true_eq]

/-- What is to be removed is removed. -/
theorem stays_of_not_filterWord {mark : Char} (hmark : mark ∈ ['=', ':']) {f : Field} (hf : f.Plain mark)
    {runParams : Text} (h : filterWord (filterTestParams mark runParams) (f.render mark) = false) :
    f.Stays runParams := by
  rw [← Bool.not_eq_true, filterWord_iff hmark hf, not_or] at h
  intro hvalue
  refine ⟨fun hname => h.1 ⟨hvalue, hname⟩, fun hname => h.2 ⟨f.name, hname, hf.1, ?_⟩⟩
  obtain ⟨value, hvalue⟩ := Option.isSome_iff_exists.1 hvalue
  rw [Field.render, hvalue]
  exact List.prefix_append ..

theorem not_filterWord_of_noSpill {mark : Char} (hmark : mark ∈ ['=', ':']) {fields : List Field} {runParams : Text}
    (h : NoSpill mark runParams fields) {f : Field} (hf : f ∈ fields) (hplain : f.Plain mark)
    (hstays : f.Stays runParams) : filterWord (filterTestParams mark runParams) (f.render mark) = false := by
  rw [← Bool.not_eq_true, filterWord_iff hmark hplain, not_or]
  refine ⟨fun hfield => (hstays hfield.1).1 hfield.2, ?_⟩
  rintro ⟨name, hname, hne, hprefix⟩
  exact h f hf hstays name hname hne hprefix

/-! ## Lengths -/

theorem length_join (sep : Char) (words : List Text) :
    (join sep words).length = (words.map fun w => w.length + 1).sum - 1 := by
  induction words with
  | nil => rfl
  | cons w rest ih =>
      rcases rest with _ | ⟨w', rest⟩
      · simp
      · rw [join_cons_cons, List.length_append, List.length_cons, ih, List.map_cons, List.map_cons, List.map_cons,
          List.sum_cons, List.sum_cons, List.sum_cons]
        omega

/-- A text with fewer of its words is shorter. -/
theorem length_join_filter_lt {sep : Char} {fields : List Field} {p : Field → Bool} {g : Field → Text}
    (hg : ∀ f ∈ fields, g f ≠ []) {f : Field} (hf : f ∈ fields) (hp : p f = false) :
    (join sep ((fields.filter p).map g)).length < (join sep (fields.map g)).length := by
  have hperm := ((List.filter_append_perm p fields).map fun f => (g f).length + 1).sum_eq
  have hone : (g f).length + 1 ≤ ((fields.filter fun f => !p f).map fun f => (g f).length + 1).sum := by
    apply List.single_le_sum (fun _ _ => Nat.zero_le _)
    exact List.mem_map.2 ⟨f, List.mem_filter.2 ⟨hf, by rw [hp]; rfl⟩, rfl⟩
  have hpos : 0 < (g f).length := List.length_pos_iff.2 (hg f hf)
  rw [List.map_append, List.sum_append] at hperm
  rw [length_join, length_join, List.map_map, List.map_map]
  simp only [Function.comp_def]
  omega

theorem length_join_filter_le {sep : Char} {fields : List Field} {p : Field → Bool} {g : Field → Text}
    (hg : ∀ f ∈ fields, g f ≠ []) :
    (join sep ((fields.filter p).map g)).length ≤ (join sep (fields.map g)).length := by
  by_cases hall : ∀ f ∈ fields, p f = true
  · rw [List.filter_eq_self.2 hall]
  · obtain ⟨f, hf, hp⟩ := not_forall₂.1 hall
    exact (length_join_filter_lt hg hf (Bool.eq_false_iff.2 hp)).le

/-! ## The name that is written -/

/-- The parameters that `filter_fields` keeps. -/
def keptFields (mark : Char) (runParams : Text) (fields : List Field) : List Field :=
  fields.filter fun f => !filterWord (filterTestParams mark runParams) (f.render mark)

theorem Field.Plain.render_ne {mark : Char} {f : Field} (h : f.Plain mark) (mark' : Char) : f.render mark' ≠ [] := by
  rw [Field.render]
  split
  · exact h.1
  · exact List.append_ne_nil_of_left_ne_nil h.1 _

theorem Field.Plain.no_comma {mark : Char} {f : Field} (h : f.Plain mark) {mark' : Char} (hmark : mark' ≠ ',') :
    ',' ∉ f.render mark' := by
  obtain ⟨-, hname, -, hvalue⟩ := h
  rw [Field.render]
  split
  · exact hname
  · next value heq =>
      rw [List.mem_append, List.mem_cons, not_or, not_or]
      exact ⟨hname, Ne.symm hmark, hvalue value heq⟩

theorem Field.Plain.replaceFirst {f : Field} (h : f.Plain ':') : replaceFirst (f.render ':') = f.render '=' := by
  obtain ⟨-, -, hname, -⟩ := h
  have hleft : ∀ (name rest : Text), ':' ∉ name →
      Reports.replaceFirst (name ++ rest) = name ++ Reports.replaceFirst rest := by
    intro name rest hname
    induction name with
    | nil => rfl
    | cons c name ih =>
        rw [List.mem_cons, not_or] at hname
        rw [List.cons_append, Reports.replaceFirst, if_neg (Ne.symm hname.1), ih hname.2]
        rfl
  rw [Field.render, Field.render]
  rcases f.value with _ | value
  · have hnil := hleft f.name [] hname
    rw [List.append_nil] at hnil
    exact hnil.trans (List.append_nil _)
  · exact hleft f.name (':' :: value) hname

theorem splitOn_render {mark : Char} (hmark : mark ≠ ',') {fields : List Field} (hne : fields ≠ [])
    (h : ∀ f ∈ fields, f.Plain mark) : (render mark fields).splitOn ',' = fields.map (Field.render mark) := by
  refine List.splitOn_intercalate ',' ?_ (fun hnil => hne (List.map_eq_nil_iff.1 hnil))
  intro word hword
  obtain ⟨f, hf, rfl⟩ := List.mem_map.1 hword
  exact (h f hf).no_comma hmark

theorem filter_map_render (mark : Char) (runParams : Text) (fields : List Field) :
    (fields.map (Field.render mark)).filter (fun fw => !filterWord (filterTestParams mark runParams) fw)
      = (keptFields mark runParams fields).map (Field.render mark) := by
  rw [List.filter_map]
  rfl

/-- A word without characters starts with no name. -/
theorem filterWord_nil (words : List Text) : filterWord words [] = false := by
  rw [filterWord, List.any_eq_false]
  intro word _
  rcases word with _ | ⟨c, word⟩
  · decide
  · simp

/-- The form `name=value`. -/
theorem filterFields_equals {fields : List Field} (h : Given '=' fields) (runParams : Text) :
    filterFields (render '=' fields) runParams = render '=' (keptFields '=' runParams fields) := by
  have hno : ¬ "logs_folder:".toList <:+: render '=' fields := by
    intro hlogs
    have hmark : '=' = ':' := h.2.1 (decide_eq_true hlogs)
    exact absurd hmark (by decide)
  have hbranch : filterFields (render '=' fields) runParams = join ','
      (((render '=' fields).splitOn ',').filter fun fw => !filterWord (filterTestParams '=' runParams) fw) := if_neg hno
  rw [hbranch]
  by_cases hne : fields = []
  · subst hne
    have hnil : (render '=' []).splitOn ',' = [[]] := List.splitOn_nil ','
    have hall : [[]].filter (fun fw => !filterWord (filterTestParams '=' runParams) fw) = [[]] := by
      rw [List.filter_eq_self]
      intro fw hfw
      rw [List.mem_singleton.1 hfw, filterWord_nil]
      rfl
    rw [hnil, hall]
    exact join_singleton ',' []
  · rw [splitOn_render (by decide) hne h.1, filter_map_render, render]

/-! ### The form `name:value` -/

section Colon

variable {mark : Char} (last : Text)

/-- The words with their commas. -/
def writeWords (l : List Field) : Text :=
  l.flatMap fun f => if f.render ':' ≠ last then f.render '=' ++ [','] else f.render '='

theorem writeWords_append (l l' : List Field) : writeWords last (l ++ l') = writeWords last l ++ writeWords last l' :=
  List.flatMap_append

theorem writeWords_singleton (f : Field) :
    writeWords last [f] = if f.render ':' ≠ last then f.render '=' ++ [','] else f.render '=' :=
  List.flatMap_singleton ..

/-- Behind words with commas comes one more. -/
theorem writeWords_append_word {l : List Field} (h : ∀ f ∈ l, f.render ':' ≠ last) (word : Text) :
    writeWords last l ++ word = join ',' (l.map (Field.render '=') ++ [word]) := by
  induction l with
  | nil => exact (join_singleton ',' word).symm
  | cons f l ih =>
      rw [List.forall_mem_cons] at h
      have hcons : f :: l = [f] ++ l := rfl
      obtain ⟨next, rest, hrest⟩ := List.exists_cons_of_ne_nil
        (List.append_ne_nil_of_right_ne_nil (l.map (Field.render '=')) (List.cons_ne_nil word []))
      rw [hcons, writeWords_append, writeWords_singleton, if_pos h.1, List.append_assoc, List.append_assoc, ih h.2,
        List.map_append, List.map_singleton, List.append_assoc, hrest, List.singleton_append, List.singleton_append,
        join_cons_cons]

theorem length_writeWords (l : List Field) :
    (writeWords last l).length + l.countP (fun f => f.render ':' = last)
      = (l.map fun f => (f.render '=').length + 1).sum := by
  induction l with
  | nil => rfl
  | cons f l ih =>
      have hcons : f :: l = [f] ++ l := rfl
      rw [hcons, writeWords_append, writeWords_singleton, List.length_append, List.countP_append, List.map_append,
        List.sum_append, ← ih, List.countP_singleton, List.map_singleton, List.sum_singleton]
      by_cases hf : f.render ':' = last
      · simp [hf]
        omega
      · simp [hf]
        omega

end Colon

theorem rstrip_snoc_of_pos {p : Char → Bool} {c : Char} (hc : p c = true) (text : Text) :
    rstrip p (text ++ [c]) = rstrip p text := by
  rw [rstrip, rstrip, List.reverse_append, List.reverse_singleton, List.singleton_append, List.dropWhile_cons_of_pos hc]

theorem rstrip_append_of_neg {p : Char → Bool} {word : Text} (hne : word ≠ []) (h : ∀ c ∈ word, p c = false)
    (text : Text) : rstrip p (text ++ word) = text ++ word := by
  have hlast : ∀ c ∈ (text ++ word).reverse.head?, p c = false := by
    intro c hc
    rw [List.head?_reverse, List.getLast?_append_of_ne_nil _ hne] at hc
    exact h c (List.mem_of_getLast? hc)
  rw [rstrip, dropWhile_eq_self hlast, List.reverse_reverse]

theorem length_rstrip_le (p : Char → Bool) (text : Text) : (rstrip p text).length ≤ text.length := by
  have hdrop : (text.reverse.dropWhile p).length ≤ text.reverse.length := (List.dropWhile_suffix p).length_le
  rw [rstrip, List.length_reverse]
  exact hdrop.trans_eq List.length_reverse

theorem suffix_join (sep : Char) (words : List Text) (word : Text) : word <:+ join sep (words ++ [word]) := by
  induction words with
  | nil => exact ⟨[], (join_singleton sep word).symm⟩
  | cons w rest ih =>
      obtain ⟨next, rest', hrest⟩ := List.exists_cons_of_ne_nil
        (List.append_ne_nil_of_right_ne_nil rest (List.cons_ne_nil word []))
      rw [List.cons_append, hrest, join_cons_cons, ← hrest]
      exact ih.trans ((List.suffix_cons sep _).trans (List.suffix_append w _))

/-- Words with commas between them end in no comma. -/
theorem rstrip_join {l : List Field} (h : ∀ f ∈ l, f.Plain ':') :
    rstrip (· = ',') (join ',' (l.map (Field.render '='))) = join ',' (l.map (Field.render '=')) := by
  rcases List.eq_nil_or_concat' l with rfl | ⟨l, f, rfl⟩
  · rfl
  have hf := h f (List.mem_append_right _ (List.mem_singleton_self f))
  have hword : ∀ c ∈ f.render '=', decide (c = ',') = false :=
    fun c hc => decide_eq_false fun heq => hf.no_comma (by decide) (heq ▸ hc)
  rw [List.map_append, List.map_singleton]
  obtain ⟨text, htext⟩ := suffix_join ',' (l.map (Field.render '=')) (f.render '=')
  rw [← htext, rstrip_append_of_neg (hf.render_ne '=') hword]

/-- What is written, when `z` is the last parameter of the name. -/
theorem filterFields_colon {init : List Field} {z : Field} (h : Given ':' (init ++ [z])) (runParams : Text) :
    filterFields (render ':' (init ++ [z])) runParams
      = rstrip (· = ',') (writeWords (z.render ':') (keptFields ':' runParams (init ++ [z]))) := by
  have hlogs : "logs_folder:".toList <:+: render ':' (init ++ [z]) := of_decide_eq_true (h.2.2 rfl)
  have hbranch : filterFields (render ':' (init ++ [z])) runParams = rstrip (· = ',')
      ((((render ':' (init ++ [z])).splitOn ',').filter fun fw =>
        !filterWord (filterTestParams ':' runParams) fw).flatMap
        fun fw => if fw ≠ ((render ':' (init ++ [z])).splitOn ',').getLastD [] then replaceFirst fw ++ [',']
          else replaceFirst fw) := if_pos hlogs
  have hne : init ++ [z] ≠ [] := List.append_ne_nil_of_right_ne_nil _ (List.cons_ne_nil z [])
  have hlast : ((init ++ [z]).map (Field.render ':')).getLastD [] = z.render ':' := by
    rw [List.map_append, List.map_singleton, List.getLastD_concat]
  rw [hbranch, splitOn_render (by decide) hne h.1, filter_map_render, hlast, List.flatMap_map]
  congr 1
  rw [writeWords, List.flatMap_def, List.flatMap_def]
  congr 1
  apply List.map_congr_left
  intro f hf
  rw [(h.1 f (List.mem_of_mem_filter hf)).replaceFirst]

theorem keptFields_append (mark : Char) (runParams : Text) (l l' : List Field) :
    keptFields mark runParams (l ++ l') = keptFields mark runParams l ++ keptFields mark runParams l' :=
  List.filter_append ..

/-- What is kept depends on the text alone. -/
theorem mem_keptFields_iff {mark : Char} {runParams : Text} {fields : List Field} {f : Field} :
    f ∈ keptFields mark runParams fields ↔
      f ∈ fields ∧ filterWord (filterTestParams mark runParams) (f.render mark) = false := by
  rw [keptFields, List.mem_filter, Bool.not_eq_true']

theorem keptFields_singleton (mark : Char) (runParams : Text) (z : Field) :
    keptFields mark runParams [z]
      = if filterWord (filterTestParams mark runParams) (z.render mark) = true then [] else [z] := by
  rw [keptFields, List.filter_singleton]
  cases filterWord (filterTestParams mark runParams) (z.render mark) <;> rfl

/-- Where the last word is removed or occurs once, the commas stand between the words. -/
theorem colon_of_no_repeat {init : List Field} {z : Field} (h : Given ':' (init ++ [z])) {runParams : Text}
    (hz : filterWord (filterTestParams ':' runParams) (z.render ':') = false →
      z.render ':' ∉ init.map (Field.render ':')) :
    filterFields (render ':' (init ++ [z])) runParams = render '=' (keptFields ':' runParams (init ++ [z])) := by
  have hplain : ∀ f ∈ keptFields ':' runParams (init ++ [z]), f.Plain ':' :=
    fun f hf => h.1 f (mem_keptFields_iff.1 hf).1
  rw [filterFields_colon h, render, ← rstrip_join hplain]
  rw [keptFields_append, keptFields_singleton]
  cases hword : filterWord (filterTestParams ':' runParams) (z.render ':') with
  | false =>
      have hother : ∀ f ∈ keptFields ':' runParams init, f.render ':' ≠ z.render ':' := by
        intro f hf heq
        exact hz hword (heq ▸ List.mem_map_of_mem (mem_keptFields_iff.1 hf).1)
      rw [if_neg Bool.false_ne_true, writeWords_append, writeWords_singleton, if_neg (fun hne => hne rfl),
        writeWords_append_word _ hother, List.map_append, List.map_singleton]
  | true =>
      have hother : ∀ f ∈ keptFields ':' runParams init, f.render ':' ≠ z.render ':' := by
        intro f hf heq
        have hkept := (mem_keptFields_iff.1 hf).2
        rw [heq, hword] at hkept
        cases hkept
      rw [if_pos rfl, List.append_nil]
      rcases List.eq_nil_or_concat' (keptFields ':' runParams init) with hnil | ⟨l, f, hl⟩
      · rw [hnil]
        rfl
      · rw [hl, List.forall_mem_append] at hother
        have hf := hother.2 f (List.mem_singleton_self f)
        rw [hl, writeWords_append, writeWords_singleton, if_pos hf, ← List.append_assoc,
          rstrip_snoc_of_pos (decide_eq_true rfl), writeWords_append_word _ hother.1, List.map_append,
          List.map_singleton]

/-- Where it stays and occurs before, a comma is missing. -/
theorem colon_of_repeat {init : List Field} {z : Field} (h : Given ':' (init ++ [z])) {runParams : Text}
    (hz : filterWord (filterTestParams ':' runParams) (z.render ':') = false)
    (hrepeat : z.render ':' ∈ init.map (Field.render ':')) :
    (filterFields (render ':' (init ++ [z])) runParams).length
      < (render '=' (keptFields ':' runParams (init ++ [z]))).length := by
  obtain ⟨f, hf, heq⟩ := List.mem_map.1 hrepeat
  have hkept : f ∈ keptFields ':' runParams init := mem_keptFields_iff.2 ⟨hf, by rw [heq]; exact hz⟩
  have htwo : 2 ≤ (keptFields ':' runParams (init ++ [z])).countP fun f => f.render ':' = z.render ':' := by
    have hone : 0 < (keptFields ':' runParams init).countP fun f => f.render ':' = z.render ':' :=
      List.countP_pos_iff.2 ⟨f, hkept, decide_eq_true heq⟩
    rw [keptFields_append, keptFields_singleton, hz, if_neg Bool.false_ne_true, List.countP_append,
      List.countP_singleton, decide_eq_true rfl, if_pos rfl]
    omega
  have hlength := length_writeWords (z.render ':') (keptFields ':' runParams (init ++ [z]))
  have hstrip := length_rstrip_le (· = ',') (writeWords (z.render ':') (keptFields ':' runParams (init ++ [z])))
  rw [filterFields_colon h, render, length_join, List.map_map]
  simp only [Function.comp_def]
  omega

/-! ## When filtering is exact -/

/-- What is kept is among what is to stay. -/
theorem keptFields_eq {mark : Char} (hmark : mark ∈ ['=', ':']) {fields : List Field} (h : ∀ f ∈ fields, f.Plain mark)
    (runParams : Text) :
    keptFields mark runParams fields
      = (fields.filter fun f => f.Stays runParams).filter
          fun f => !filterWord (filterTestParams mark runParams) (f.render mark) := by
  rw [keptFields, List.filter_filter]
  apply List.filter_congr
  intro f hf
  cases hword : filterWord (filterTestParams mark runParams) (f.render mark) with
  | false => simp [stays_of_not_filterWord hmark (h f hf) hword]
  | true => rfl

theorem keptFields_of_noSpill {mark : Char} (hmark : mark ∈ ['=', ':']) {fields : List Field}
    (h : ∀ f ∈ fields, f.Plain mark) {runParams : Text} (hspill : NoSpill mark runParams fields) :
    keptFields mark runParams fields = fields.filter fun f => f.Stays runParams := by
  rw [keptFields_eq hmark h, List.filter_eq_self]
  intro f hf
  obtain ⟨hf, hstays⟩ := List.mem_filter.1 hf
  rw [not_filterWord_of_noSpill hmark hspill hf (h f hf) (of_decide_eq_true hstays)]
  rfl

/-- What is kept is no longer than what is expected, and shorter if a parameter is missing. -/
theorem noSpill_of_length_le {mark : Char} (hmark : mark ∈ ['=', ':']) {fields : List Field}
    (h : ∀ f ∈ fields, f.Plain mark) {runParams : Text}
    (hle : (expected runParams fields).length ≤ (render '=' (keptFields mark runParams fields)).length) :
    NoSpill mark runParams fields := by
  intro f hf hstays name hname hne hprefix
  have hword : filterWord (filterTestParams mark runParams) (f.render mark) = true :=
    (filterWord_iff hmark (h f hf) runParams).2 (.inr ⟨name, hname, hne, hprefix⟩)
  have hlt : (render '=' (keptFields mark runParams fields)).length < (expected runParams fields).length := by
    rw [keptFields_eq hmark h, render, expected, render]
    refine length_join_filter_lt (fun g hg => (h g (List.mem_of_mem_filter hg)).render_ne '=')
      (List.mem_filter.2 ⟨hf, decide_eq_true hstays⟩) ?_
    rw [hword]
    rfl
  exact absurd hle (Nat.not_le.2 hlt)

theorem equals_exact_iff {fields : List Field} (h : Given '=' fields) (runParams : Text) :
    filterFields (render '=' fields) runParams = expected runParams fields ↔ NoSpill '=' runParams fields := by
  rw [filterFields_equals h]
  constructor
  · intro heq
    exact noSpill_of_length_le (by decide) h.1 (by rw [heq])
  · intro hspill
    rw [keptFields_of_noSpill (by decide) h.1 hspill, expected]

theorem colon_exact_iff {fields : List Field} (h : Given ':' fields) (runParams : Text) :
    filterFields (render ':' fields) runParams = expected runParams fields ↔
      NoSpill ':' runParams fields ∧ NoRepeat ':' runParams fields := by
  rcases List.eq_nil_or_concat' fields with rfl | ⟨init, z, rfl⟩
  · exact absurd (h.2.2 rfl) (by decide)
  have hmark : ':' ∈ ['=', ':'] := by decide
  have hz : z.Plain ':' := h.1 z (List.mem_append_right _ (List.mem_singleton_self z))
  have hrepeat : NoRepeat ':' runParams (init ++ [z]) ↔
      (z.Stays runParams → z.render ':' ∉ init.map (Field.render ':')) := by
    simp [NoRepeat]
  constructor
  · intro heq
    by_cases hlost : filterWord (filterTestParams ':' runParams) (z.render ':') = false ∧
        z.render ':' ∈ init.map (Field.render ':')
    · -- with a comma missing the name is too short
      have hlt := colon_of_repeat h hlost.1 hlost.2
      have hle : (render '=' (keptFields ':' runParams (init ++ [z]))).length ≤
          (expected runParams (init ++ [z])).length := by
        rw [keptFields_eq hmark h.1, render, expected, render]
        exact length_join_filter_le fun g hg => (h.1 g (List.mem_of_mem_filter hg)).render_ne '='
      rw [heq] at hlt
      exact absurd hle (Nat.not_le.2 hlt)
    · have hno := colon_of_no_repeat h fun hword hmem => hlost ⟨hword, hmem⟩
      have hspill : NoSpill ':' runParams (init ++ [z]) := noSpill_of_length_le hmark h.1 (by rw [← hno, heq])
      refine ⟨hspill, hrepeat.2 fun hstays hmem => hlost ⟨?_, hmem⟩⟩
      exact not_filterWord_of_noSpill hmark hspill (List.mem_append_right _ (List.mem_singleton_self z)) hz hstays
  · rintro ⟨hspill, hno⟩
    rw [colon_of_no_repeat h fun hword => hrepeat.1 hno (stays_of_not_filterWord hmark hz hword),
      keptFields_of_noSpill hmark h.1 hspill, expected]

/-- **Filtering is exact** if and only if nothing that is to stay starts with the name of a parameter of the run,
    and, in the form `name:value`, the last parameter is removed or occurs once. -/
theorem filterFields_exact_iff (runParams : Text) (fields : List Field) :
    FiltersExactly runParams fields ↔
      (Given '=' fields → NoSpill '=' runParams fields) ∧
        (Given ':' fields → NoSpill ':' runParams fields ∧ NoRepeat ':' runParams fields) := by
  rw [FiltersExactly, List.forall_mem_cons, List.forall_mem_singleton]
  constructor
  · rintro ⟨⟨hequals, hcolon⟩, -⟩
    exact ⟨fun h => (equals_exact_iff h runParams).1 (hequals h), fun h => (colon_exact_iff h runParams).1 (hcolon h)⟩
  · rintro ⟨hequals, hcolon⟩
    have hequals' : Given '=' fields → filterFields (render '=' fields) runParams = expected runParams fields :=
      fun h => (equals_exact_iff h runParams).2 (hequals h)
    have hcolon' : Given ':' fields → filterFields (render ':' fields) runParams = expected runParams fields :=
      fun h => (colon_exact_iff h runParams).2 (hcolon h)
    exact ⟨⟨hequals', hcolon'⟩, fun h h' => (hcolon' h').trans (hequals' h).symm⟩

instance (mark : Char) (fields : List Field) : Decidable (Given mark fields) :=
  inferInstanceAs (Decidable (_ ∧ _))

/-- **A parameter too many is removed**: with `x=1` on the command line, `xy=2` is gone as well. -/
theorem filterFields_spills :
    let fields : List Field := [⟨"t".toList, none⟩, ⟨"xy".toList, some "2".toList⟩, ⟨"x".toList, some "3".toList⟩]
    filterFields (render '=' fields) "x=1".toList = "t".toList ∧ ¬ FiltersExactly "x=1".toList fields := by
  refine ⟨by decide, ?_⟩
  rintro ⟨h, -⟩
  exact absurd (h '=' (by decide) (by decide)) (by decide)

end TestInfra.Reports
