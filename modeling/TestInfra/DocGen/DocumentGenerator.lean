import TestInfra.Lib.JsonText
import TestInfra.Lib.MixedRadix

set_option autoImplicit false

/-! # Documents from a template

`DocumentGenerator` (`lib/couchbase_helper/documentgenerator.py`) fills a template with one value from each of its
argument lists. Which values is decided by the position of the document, a number in mixed radix with the lengths of
the lists as radices, so that the documents run through all combinations and repeat after them.

The text that comes out is patched and read as JSON. A value with an apostrophe or a quote can spoil it, and the
generator raises in the middle of the documents. -/

namespace TestInfra

open PyText JsonText MixedRadix

/-- A `DocumentGenerator`. The template is `self.template.format`, `none` where it raises; under the name
    `random_keys` the keys are random. -/
structure DocumentGenerator (V : Type) where
  name : Text
  template : List V → Option Text
  args : List (List V)
  start : ℤ
  stop : ℤ
  itr : ℤ
  randomKey : ℤ → Text

namespace DocumentGenerator

variable {V α : Type}

/-- `size` in `__init__`. -/
def size (args : List (List V)) : ℕ := if args = [] then 0 else (args.map List.length).prod

/-- `__init__`, with `start` and `end` where they are given. -/
def new (name : Text) (template : List V → Option Text) (args : List (List V)) (start stop : Option ℤ)
    (randomKey : ℤ → Text) : DocumentGenerator V :=
  ⟨name, template, args, start.getD 0, stop.getD (size args), start.getD 0, randomKey⟩

/-- The loop over `self.args`; `none` when an empty list makes it raise. -/
def docArgs : List (List V) → ℤ → Option (List V)
  | [], _ => some []
  | arg :: args, seed => do
      let value ← arg[(seed % arg.length).toNat]?
      let rest ← docArgs args (seed / arg.length)
      pure (value :: rest)

/-- The replacements in the filled template. -/
def patched (doc : Text) : Text :=
  replace "\\".toList "\\\\".toList (replace "False".toList "false".toList
    (replace "True".toList "true".toList (replace "'".toList "\"".toList doc)))

/-- `json_doc['_id']` of the document at a position. -/
def key (g : DocumentGenerator V) (itr : ℤ) : Text :=
  if g.name = "random_keys".toList then g.randomKey itr else g.name ++ '-' :: intText itr

/-- The document at a position, as it is dumped; `none` when making it raises. -/
def document (sc : Scalars α) (g : DocumentGenerator V) (itr : ℤ) : Option (Json α) := do
  match ← loads sc (patched (← g.template (← docArgs g.args itr))) with
  | .dict items => pure (.dict (Assoc.store "_id".toList (.str (g.key itr)) items))
  -- there is no `_id` in anything else
  | _ => none

/-- How a call of `__next__` ends when it returns nothing. -/
inductive Stop where
  | stopIteration
  | raised
deriving DecidableEq, Repr

/-- `__next__`. -/
def next (sc : Scalars α) (g : DocumentGenerator V) : Except Stop ((Text × Json α) × DocumentGenerator V) :=
  if g.itr ≥ g.stop then .error .stopIteration
  else
    match g.document sc g.itr with
    | none => .error .raised
    | some doc => .ok ((g.key g.itr, doc), { g with itr := g.itr + 1 })

/-- A loop over the generator with at most so many calls: the documents, and how the last call ended. -/
def iterate (sc : Scalars α) : ℕ → DocumentGenerator V → List (Text × Json α) × Option Stop
  | 0, _ => ([], none)
  | n + 1, g =>
      match g.next sc with
      | .error stop => ([], some stop)
      | .ok (doc, g) => let (docs, stop) := iterate sc n g; (doc :: docs, stop)

/-! ## The arguments of a document -/

/-- The values at these positions of the lists. -/
def pick (args : List (List V)) (positions : List ℕ) : Option (List V) :=
  (args.zip positions).mapM fun p => p.1[p.2]?

theorem pick_cons (arg : List V) (args : List (List V)) (i : ℕ) (positions : List ℕ) :
    pick (arg :: args) (i :: positions)
      = arg[i]?.bind fun value => (pick args positions).bind fun rest => some (value :: rest) := by
  rw [pick, List.zip_cons_cons, List.mapM_cons]
  rfl

/-- The positions are the digits of the number of the document. -/
theorem docArgs_eq (args : List (List V)) (seed : ℤ) :
    docArgs args seed = pick args (digits (args.map List.length) seed) := by
  induction args generalizing seed with
  | nil => rfl
  | cons arg args ih =>
      rw [docArgs, ih, List.map_cons, digits, pick_cons]
      rfl

theorem pick_isSome {args : List (List V)} {positions : List ℕ}
    (h : List.Forall₂ (· < ·) positions (args.map List.length)) : (pick args positions).isSome := by
  induction args generalizing positions with
  | nil => rfl
  | cons arg args ih =>
      rw [List.map_cons] at h
      rcases h with _ | ⟨hlt, hrest⟩
      obtain ⟨rest, hrest⟩ := Option.isSome_iff_exists.1 (ih hrest)
      rw [pick_cons, hrest, List.getElem?_eq_getElem hlt]
      rfl

theorem size_eq {args : List (List V)} (h : args ≠ []) : size args = (args.map List.length).prod := if_neg h

theorem docArgs_emod {args : List (List V)} (hne : args ≠ []) (hpos : ∀ arg ∈ args, arg ≠ []) (itr : ℤ) :
    docArgs args (itr % size args) = docArgs args itr := by
  have hradices : ∀ r ∈ args.map List.length, 0 < r := by
    rw [List.forall_mem_map]
    exact fun arg harg => List.length_pos_of_ne_nil (hpos arg harg)
  rw [docArgs_eq, docArgs_eq, size_eq hne, digits_emod hradices]

/-- The arguments at the first positions are the combinations, one after the other. -/
theorem map_docArgs_range {args : List (List V)} (hne : args ≠ []) :
    (List.range (size args)).map (fun i : ℕ => docArgs args i)
      = (combinations (args.map List.length)).map (pick args) := by
  rw [combinations, List.map_map, size_eq hne]
  exact List.map_congr_left fun i _ => docArgs_eq args i

/-! ## The loop over a generator -/

/-- The text that these values make is a JSON object. -/
def ReadsAsObject (sc : Scalars α) (template : List V → Option Text) (values : List V) : Prop :=
  ∃ text items, template values = some text ∧ loads sc (patched text) = some (.dict items)

theorem document_isSome_iff (sc : Scalars α) (g : DocumentGenerator V) (itr : ℤ) :
    (g.document sc itr).isSome ↔ ∃ values, docArgs g.args itr = some values ∧ ReadsAsObject sc g.template values := by
  rw [document]
  rcases docArgs g.args itr with _ | values
  · simp
  rcases htext : g.template values with _ | text
  · simp [ReadsAsObject, htext]
  rcases hdoc : loads sc (patched text) with _ | doc
  · simp [ReadsAsObject, htext, hdoc]
  rcases doc with a | s | items | items <;> simp [ReadsAsObject, htext, hdoc]

/-- What a loop over the rest of a generator leaves: the first documents, and a stop that says what came next. -/
structure Iterated (sc : Scalars α) (g : DocumentGenerator V) (made : ℕ)
    (out : List (Text × Json α) × Option Stop) : Prop where
  made_le : made ≤ (g.stop - g.itr).toNat
  docs : List.Forall₂ (fun doc (i : ℕ) => doc.1 = g.key (g.itr + i) ∧ g.document sc (g.itr + i) = some doc.2)
    out.1 (List.range made)
  stopped : out.2 = some .stopIteration ∧ made = (g.stop - g.itr).toNat ∨
    out.2 = some .raised ∧ made < (g.stop - g.itr).toNat ∧ g.document sc (g.itr + made) = none

theorem iterate_iterated (sc : Scalars α) {n : ℕ} {g : DocumentGenerator V} (hn : (g.stop - g.itr).toNat < n) :
    ∃ made, Iterated sc g made (iterate sc n g) := by
  induction n generalizing g with
  | zero => omega
  | succ n ih =>
      rw [iterate]
      by_cases hstop : g.itr ≥ g.stop
      · have hnext : g.next sc = .error .stopIteration := if_pos hstop
        have hrest : (g.stop - g.itr).toNat = 0 := by omega
        rw [hnext]
        exact ⟨0, Nat.zero_le _, .nil, .inl ⟨rfl, hrest.symm⟩⟩
      rcases hdoc : g.document sc g.itr with _ | doc
      · have hnext : g.next sc = .error .raised := by rw [next, if_neg hstop, hdoc]
        rw [hnext]
        refine ⟨0, Nat.zero_le _, .nil, .inr ⟨rfl, by omega, ?_⟩⟩
        rw [Nat.cast_zero, Int.add_zero]
        exact hdoc
      · have hnext : g.next sc = .ok ((g.key g.itr, doc), { g with itr := g.itr + 1 }) := by
          rw [next, if_neg hstop, hdoc]
        obtain ⟨made, hmade, hdocs, hstopped⟩ := ih (g := { g with itr := g.itr + 1 }) (by simp only; omega)
        have hshift : ∀ i : ℕ, g.itr + 1 + (i : ℤ) = g.itr + ((i + 1 : ℕ) : ℤ) := by omega
        have hrest : (g.stop - g.itr).toNat = (g.stop - (g.itr + 1)).toNat + 1 := by omega
        rw [hnext]
        refine ⟨made + 1, by rw [hrest]; exact Nat.add_le_add_right hmade 1, ?_, ?_⟩
        · rw [List.range_succ_eq_map]
          refine .cons ⟨by simp, by simpa using hdoc⟩ ?_
          rw [List.forall₂_map_right_iff]
          exact hdocs.imp fun d i hi => by rw [← hshift]; exact hi
        · rw [hrest, ← hshift]
          rcases hstopped with ⟨hout, hall⟩ | ⟨hout, hlt, hnone⟩
          · exact .inl ⟨hout, congrArg (· + 1) hall⟩
          · exact .inr ⟨hout, Nat.add_lt_add_right hlt 1, hnone⟩

namespace Iterated

variable {sc : Scalars α} {g : DocumentGenerator V} {made : ℕ} {out : List (Text × Json α) × Option Stop}

theorem keys (h : Iterated sc g made out) :
    out.1.map Prod.fst = (List.range made).map fun i : ℕ => g.key (g.itr + i) := by
  rw [← List.forall₂_eq_eq_eq, List.forall₂_map_left_iff, List.forall₂_map_right_iff]
  exact h.docs.imp fun _ _ hi => hi.1

theorem document_isSome (h : Iterated sc g made out) {i : ℕ} (hi : i < made) : (g.document sc (g.itr + i)).isSome := by
  have hlength : out.1.length = made := by rw [h.docs.length_eq, List.length_range]
  have hdoc := h.docs.get (hlength ▸ hi) (by rw [List.length_range]; exact hi)
  simp only [List.get_eq_getElem, List.getElem_range] at hdoc
  exact Option.isSome_iff_exists.2 ⟨_, hdoc.2⟩

/-- The loop gets to the end if all texts up to there can be read, and only then. -/
theorem stopIteration_iff (h : Iterated sc g made out) :
    out.2 = some .stopIteration ∧ made = (g.stop - g.itr).toNat
      ↔ ∀ i, g.itr ≤ i → i < g.stop → (g.document sc i).isSome := by
  constructor
  · rintro ⟨-, hall⟩ i hfrom hto
    have hpos : i = g.itr + ((i - g.itr).toNat : ℕ) := by omega
    rw [hpos]
    exact h.document_isSome (by omega)
  · intro hread
    rcases h.stopped with hstop | ⟨-, hlt, hnone⟩
    · exact hstop
    · have hsome := hread (g.itr + made) (by omega) (by omega)
      rw [hnone] at hsome
      exact absurd hsome Bool.false_ne_true

end Iterated

/-- **Documents run through the combinations**: the arguments of the first documents are all combinations of positions,
    each once, and repeat after them. A loop from `start` to `end` makes the documents in order, all of them if each
    text reads as a JSON object and those before the first text that does not otherwise. -/
theorem iterate_combinations (sc : Scalars α) {name : Text} (hname : name ≠ "random_keys".toList)
    (template : List V → Option Text) {args : List (List V)} (hne : args ≠ []) (hpos : ∀ arg ∈ args, arg ≠ [])
    (start stop : Option ℤ) (randomKey : ℤ → Text) :
    let positions := combinations (args.map List.length)
    let g := new name template args start stop randomKey
    let keys := fun count => (List.range count).map fun i : ℕ => name ++ '-' :: intText (g.start + i)
    (positions.Nodup ∧ ∀ ds, ds ∈ positions ↔ List.Forall₂ (· < ·) ds (args.map List.length)) ∧
    (List.range (size args)).map (fun i : ℕ => docArgs args i) = positions.map (pick args) ∧
    (∀ ds ∈ positions, (pick args ds).isSome) ∧
    (∀ itr, 0 ≤ itr → docArgs args itr = docArgs args (itr % size args)) ∧
    ∀ n, (g.stop - g.start).toNat < n → ∃ made, Iterated sc g made (iterate sc n g) ∧
      (iterate sc n g).1.map Prod.fst = keys made ∧
      ((iterate sc n g).2 = some .stopIteration ∧ (iterate sc n g).1.map Prod.fst = keys (g.stop - g.start).toNat ↔
        ∀ i, g.start ≤ i → i < g.stop →
          ∃ values, docArgs args i = some values ∧ ReadsAsObject sc template values) := by
  intro positions g keys
  have hradices : ∀ r ∈ args.map List.length, 0 < r := by
    rw [List.forall_mem_map]
    exact fun arg harg => List.length_pos_of_ne_nil (hpos arg harg)
  have hmem : ∀ ds, ds ∈ positions ↔ List.Forall₂ (· < ·) ds (args.map List.length) :=
    fun ds => mem_combinations_iff hradices
  refine ⟨⟨nodup_combinations hradices, hmem⟩, map_docArgs_range hne, fun ds hds => pick_isSome ((hmem ds).1 hds),
    fun itr _ => (docArgs_emod hne hpos itr).symm, ?_⟩
  intro n hn
  obtain ⟨made, h⟩ := iterate_iterated sc (g := g) hn
  have hkeys : (iterate sc n g).1.map Prod.fst = keys made := by
    rw [h.keys]
    exact List.map_congr_left fun i _ => if_neg hname
  have hlength : ∀ count, (keys count).length = count := fun count => by rw [List.length_map, List.length_range]
  have hmade : (iterate sc n g).1.map Prod.fst = keys (g.stop - g.start).toNat ↔ made = (g.stop - g.start).toNat := by
    rw [hkeys]
    exact ⟨fun heq => by rw [← hlength made, heq, hlength], fun heq => by rw [heq]⟩
  refine ⟨made, h, hkeys, ?_⟩
  rw [hmade]
  refine h.stopIteration_iff.trans (forall_congr' fun i => ?_)
  rw [document_isSome_iff]
  exact Iff.rfl

/-- A template with one argument, for the arguments written. -/
def firstName (value : List Text) : Option Text :=
  some ("\x7b \"first_name\": \"".toList ++ value.flatten ++ "\" \x7d".toList)

/-- Numbers as numbers, words and fractions as zero. -/
def wholeScalars : Scalars ℤ := ⟨0, fun _ => 0, id, fun _ => 0⟩

theorem iterate_combinations_firstName :
    ((iterate wholeScalars 3 (new "test_docs".toList firstName [["james".toList, "sharon".toList]] none none
      fun _ => [])).1.map Prod.fst) = ["test_docs-0".toList, "test_docs-1".toList] := by
  have hname : "test_docs".toList ≠ "random_keys".toList := by decide
  have hne : [["james".toList, "sharon".toList]] ≠ [] := by decide
  have hpos : ∀ arg ∈ [["james".toList, "sharon".toList]], arg ≠ [] := by decide
  obtain ⟨-, -, -, -, hloop⟩ := iterate_combinations wholeScalars hname firstName hne hpos none none fun _ => []
  obtain ⟨made, -, -, hall⟩ := hloop 3 (by decide)
  refine (hall.2 fun i hfrom hto => ?_).2
  have hpair : i = 0 ∨ i = 1 := by
    have hfrom' : 0 ≤ i := hfrom
    have hto' : i < 2 := hto
    omega
  rcases hpair with rfl | rfl
  · exact ⟨_, rfl, _, _, rfl, rfl⟩
  · exact ⟨_, rfl, _, _, rfl, rfl⟩

/-- An apostrophe becomes a quote that ends the string early. -/
theorem iterate_apostrophe : ¬ ∀ (sc : Scalars ℤ) (name : Text) (template : List Text → Option Text)
    (args : List (List Text)), name ≠ "random_keys".toList → args ≠ [] → (∀ arg ∈ args, arg ≠ []) →
    ∀ n, size args < n →
      (iterate sc n (new name template args none none fun _ => [])).1.map Prod.fst
        = (List.range (size args)).map fun i : ℕ => name ++ '-' :: intText i := by
  intro h
  have hdocs := h wholeScalars "test_docs".toList firstName [["O'Neil".toList]] (by decide) (by decide) (by decide) 2
    (by decide)
  revert hdocs
  decide

end DocumentGenerator

end TestInfra
