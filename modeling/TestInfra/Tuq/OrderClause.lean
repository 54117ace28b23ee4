import TestInfra.Lib.Cut
import TestInfra.Lib.Dict
import TestInfra.Lib.PyText
import TestInfra.Lib.SplitOn
import TestInfra.Lib.Words

set_option autoImplicit false

/-! # The order clause

`_get_order_clause` of `lib/couchbase_helper/tuq_generators.py`: the attributes behind `ORDER BY`, each as an expression
over `doc`. The list is cut out of the text of the query, line by line; what an attribute becomes depends on the
aliases and the aggregate functions that were met when the other clauses were read. -/

open PyText SplitText

namespace Tuq

/-! ## The generator -/

/-- What an alias stands for: an attribute, or the path of an `UNNEST`. -/
inductive AliasValue where
  | attr (name : Text)
  | path (names : List Text)
  deriving DecidableEq

structure AggrFn where
  field : AliasValue
  aliasName : Text

structure TuqGenerators where
  query : Text
  typeArgs : Dict Text (List Text)
  aggrFns : Dict Text AggrFn
  aliases : Dict Text AliasValue
  attrOrderClauseGreaterThanSelect : List Text
  parentSelected : Bool

/-- `get_alias_for`. -/
def getAliasFor (gen : TuqGenerators) (value : AliasValue) : Text :=
  ((gen.aliases.items.find? fun entry => entry.2 = value).map Prod.fst).getD []

/-- `attr in self.aliases.values()`. -/
def isAliased (gen : TuqGenerators) (attr : Text) : Bool := gen.aliases.items.any fun entry => entry.2 = .attr attr

/-- `get_all_attributes`. -/
def getAllAttributes (gen : TuqGenerators) : List Text :=
  (gen.typeArgs.items.filter fun entry => entry.1.head? ≠ some '_').flatMap Prod.snd

/-! ## The text of the clause -/

/-- `text.find(word) != -1`. -/
def hasWord (word text : Text) : Bool := word <:+: text

/-- A substitution by an expression with `.`, which does not go over the end of a line. -/
def subLines (f : Text → Text) (text : Text) : Text := join '\n' ((text.splitOn '\n').map f)

/-- `re.sub(r'WORD.*', '', text)`. -/
def subBehind (word text : Text) : Text := subLines (beforeFirst word) text

/-- `re.sub(r'.*WORD', '', text)`. -/
def subUpTo (word text : Text) : Text := subLines (behindLast word) text

/-- What stands behind `ORDER BY`, without the limit and the offset. -/
def allOrderClause (query : Text) : Text :=
  strip (subBehind "OFFSET".toList (strip (subBehind "LIMIT".toList (subUpTo "ORDER BY".toList query))))

/-- `doc["name"]`. -/
def docItem (name : Text) : Text := "doc[\"".toList ++ name ++ "\"]".toList

/-- The first name of a path is read as an attribute: it is one, or an alias of something that is none. -/
def isParent (gen : TuqGenerators) (parent : Text) : Bool :=
  match gen.aliases.get? parent with
  | some (.attr name) => decide (name ∉ getAllAttributes gen) || decide (parent ∈ getAllAttributes gen)
  | some (.path _) => true
  | none => decide (parent ∈ getAllAttributes gen)

/-- The expression of an attribute that is no alias and no aggregate. -/
def attrClause (gen : TuqGenerators) (attr : Text) : Text :=
  if '.' ∈ attr then
    let parts := attr.splitOn '.'
    let parent := parts.head?.getD []
    let child := parts.tail.head?.getD []
    if isParent gen parent then docItem parent ++ "[\"".toList ++ child ++ "\"],".toList
    else if '[' ∈ parent then
      docItem (parent.takeWhile (· ≠ '[')) ++ parent.dropWhile (· ≠ '[') ++ "[\"".toList ++ child ++ "\"],".toList
    else docItem child ++ ",".toList
  else if '[' ∈ attr then docItem (attr.takeWhile (· ≠ '[')) ++ attr.dropWhile (· ≠ '[') ++ ",".toList
  else docItem attr ++ ",".toList

/-- One round of the loop over the attributes; `none` is the `IndexError` of an attribute without a word. -/
def addAttr (state : Text × TuqGenerators) (attrS : Text) : Option (Text × TuqGenerators) :=
  let (condition, gen) := state
  match words attrS with
  | [] => none
  | attr :: _ =>
      if isAliased gen attr then some (condition ++ docItem (getAliasFor gen (.attr attr)) ++ ",".toList, gen)
      else if hasWord "MIN".toList attr then
        match gen.aggrFns.get? "MIN".toList with
        | none =>
            -- `attr[0][4:-1]`
            let field := (attr.drop 4).dropLast
            let aggrFns := gen.aggrFns.set "MIN".toList ⟨.attr field, "$gr1".toList⟩
            some (condition ++ attrClause { gen with aggrFns } field, { gen with aggrFns })
        | some params => some (condition ++ docItem params.aliasName ++ ",".toList, gen)
      else some (condition ++ attrClause gen attr, gen)

/-- `_get_order_clause`: the clause, if there is one, and the generator with the aggregates it has met. -/
def getOrderClause (gen : TuqGenerators) : Option (Option Text × TuqGenerators) :=
  if hasWord "ORDER BY".toList gen.query then
    (((allOrderClause gen.query).splitOn ',').foldlM addAttr ([], gen)).map fun state => (some state.1, state.2)
  else some (none, gen)

end Tuq
