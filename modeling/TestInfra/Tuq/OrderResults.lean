import TestInfra.Tuq.OrderClause
import TestInfra.Lib.PyInt
import TestInfra.Lib.PyList
import TestInfra.Lib.Raises
import TestInfra.Lib.StableSort

set_option autoImplicit false

/-! # Results in order

`_order_results` and `_limit_and_offset` of `lib/couchbase_helper/tuq_generators.py`, by which the tests compute what a
query with `ORDER BY`, `LIMIT` and `OFFSET` has to return. The order clause is evaluated as the key of one `sorted`,
with one direction for the whole key; where the key or the sort fails, the results stay as they are. -/

open PyText SplitText StableSort

namespace Tuq

/-! ## The clause as a key -/

/-- What stands in brackets: the name of a field, or some other expression. -/
inductive Subscript where
  | name (name : Text)
  | expr (text : Text)
  deriving DecidableEq

/-- The subscripts at the start of an expression; names with escapes are left out. -/
def readSubscripts : ℕ → Text → Option (List Subscript × Text)
  | fuel + 1, '[' :: '"' :: rest =>
      match rest.dropWhile (· ≠ '"') with
      | '"' :: ']' :: behind =>
          let name := rest.takeWhile (· ≠ '"')
          if '\\' ∈ name ∨ '\n' ∈ name then none
          else (readSubscripts fuel behind).map fun read => (.name name :: read.1, read.2)
      | _ => none
  | fuel + 1, '[' :: rest =>
      match rest.dropWhile (· ≠ ']') with
      | ']' :: behind =>
          (readSubscripts fuel behind).map fun read => (.expr (rest.takeWhile (· ≠ ']')) :: read.1, read.2)
      | _ => none
  | _, rest => some ([], rest)

/-- A tuple of expressions over `doc`; `none` is an error of `eval`. -/
def readTerms : ℕ → Text → Option (List (List Subscript))
  | _, [] => some []
  | fuel + 1, 'd' :: 'o' :: 'c' :: rest =>
      match readSubscripts rest.length rest with
      | some (term, []) => some [term]
      | some (term, ',' :: behind) => (readTerms fuel behind).map fun terms => term :: terms
      | _ => none
  | _, _ => none

section

variable {V : Type*}

/-- A document, with the values of its fields. -/
abbrev Doc (V : Type*) := Dict Text V

/-- What the code takes from the language and from the values: `\w`, `str.upper` and `value[...]`. -/
structure Env (V : Type*) where
  isWord : Char → Bool
  isWord_bracket : isWord '[' = false ∧ isWord ']' = false
  upper : Text → Text
  item : V → Subscript → Option V

variable (env : Env V)

def evalTerm (doc : Doc V) : List Subscript → Option V
  | .name name :: subscripts => (doc.get? name).bind fun value => subscripts.foldlM env.item value
  | _ => none

/-- `eval(order_clause)`. -/
def evalClause (orderClause : Text) (doc : Doc V) : Option (List V) :=
  (readTerms orderClause.length orderClause).bind fun terms => terms.mapM (evalTerm env doc)

/-! ## The code -/

/-- The names in `re.compile('"[\w\']+"').findall(text)`, the text cut at its quotes. A match takes both of its quotes;
    where there is none the search goes on behind the first one. -/
def quotedNames : List Text → List Text
  | _ :: name :: behind :: rest =>
      if name ≠ [] ∧ name.all (fun c => env.isWord c || c = '\'') then name :: quotedNames (behind :: rest)
      else quotedNames (name :: behind :: rest)
  | _ => []

/-- One round of the loop over the names of the clause. -/
def renamed (gen : TuqGenerators) (orderClause attName : Text) : Text :=
  let orderClause :=
    if isAliased gen attName then replace attName (getAliasFor gen (.attr attName)) orderClause else orderClause
  match gen.aggrFns.items.find? fun entry => entry.2.field = .attr attName with
  | some (_, params) => replace attName params.aliasName orderClause
  | none => orderClause

/-- The text that is evaluated. -/
def orderKey (gen : TuqGenerators) (orderClause : Text) : Text :=
  replace ",\"".toList "\"".toList ((quotedNames env (orderClause.splitOn '"')).foldl (renamed gen) orderClause)

/-- `len(attr) == 2 and attr[1].upper() == 'DESC'`. -/
def isDesc (attr : List Text) : Bool :=
  match attr with
  | [_, direction] => env.upper direction = "DESC".toList
  | _ => false

/-- The flag `reverse`: some attribute is `DESC`. -/
def isReversed (query : Text) : Bool :=
  ((allOrderClause query).splitOn ',').any fun attrS => isDesc env (words attrS)

variable [LinearOrder V]

/-- `sorted(result, key, reverse)` for keys that were computed; equal ones keep their places in either direction. -/
def sortedByKey (reverse : Bool) (keyed : List (List V × Doc V)) : List (Doc V) :=
  (keyed.insertionSort fun a b => if reverse then b.1 ≤ a.1 else a.1 ≤ b.1).map Prod.snd

/-- `sorted`; `none` is an exception, which is the `TypeError` of comparing documents where there is no key. -/
def sortedResults (gen : TuqGenerators) (orderClause : Option Text) (result : List (Doc V)) : Option (List (Doc V)) :=
  match orderClause with
  | some orderClause =>
      (result.mapM fun doc => (evalClause env (orderKey env gen orderClause) doc).map fun key => (key, doc)).map
        (sortedByKey (isReversed env gen.query))
  | none => if result.length ≤ 1 then some result else none

/-- `del doc[attr]`, or the aggregate that stands for it. -/
def dropAttr (doc : Doc V) (attr : Text) : Doc V :=
  let attr := if '.' ∈ attr then (attr.splitOn '.').head?.getD [] else attr
  if attr ∈ doc.keys then doc.del attr
  else if "$gr1".toList ∈ doc.keys then doc.del "$gr1".toList
  else doc

/-- `_order_results`. -/
def orderResults (gen : TuqGenerators) (result : List (Doc V)) : Option (List (Doc V)) :=
  (getOrderClause gen).map fun (orderClause, gen) =>
    match sortedResults env gen orderClause result with
    | none => result
    | some sorted =>
        if gen.attrOrderClauseGreaterThanSelect ≠ [] ∧ gen.parentSelected = false then
          sorted.map fun doc => gen.attrOrderClauseGreaterThanSelect.foldl dropAttr doc
        else sorted

/-- `if clause: result = result[...int(clause)...]`. -/
def sliced {α : Type*} (slice : ℤ → List α → List α) (clause : Option Text) (result : List α) : Option (List α) :=
  match clause with
  | some clause => if clause = [] then some result else (readInt clause).map fun n => slice n result
  | none => some result

/-- `_limit_and_offset`; `none` is a `ValueError`. -/
def limitAndOffset {α : Type*} (query : Text) (result : List α) : Option (List α) :=
  let limitClause :=
    if hasWord "LIMIT".toList query then some (strip (subBehind "OFFSET".toList (subUpTo "LIMIT".toList query)))
    else none
  let offsetClause := if hasWord "OFFSET".toList query then some (strip (subUpTo "OFFSET".toList query)) else none
  (sliced PyList.sliceFrom offsetClause result).bind (sliced PyList.sliceTo limitClause)

/-- The last steps of `generate_expected_result`. -/
def orderedResult (gen : TuqGenerators) (result : List (Doc V)) : Option (List (Doc V)) :=
  (orderResults env gen result).bind (limitAndOffset gen.query)

end

end Tuq
