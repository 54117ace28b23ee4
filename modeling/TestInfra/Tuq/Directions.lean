import TestInfra.Tuq.OrderQuery
import TestInfra.Lib.Replace
import Mathlib.Order.WithBot

set_option autoImplicit false

/-! # Directions

The documents in the order of a list of plain attributes, each in its own direction, and when `_order_results` returns
them in that order. Its key is the tuple of the attributes, and the flag `reverse` turns the whole tuple around as soon
as one attribute is `DESC`. So two documents come in the right order if the first attribute in which they differ has
the direction of the flag (`orderedResult_eq_iff`). -/

open PyText SplitText StableSort

namespace Tuq

variable {V : Type*} (env : Env V)

/-! ## The clause of plain attributes -/

/-- An attribute under its own name: the code takes it for no path, no aggregate and no alias. -/
structure Plain (gen : TuqGenerators) (name : Text) : Prop where
  chars : ∀ c ∈ name, c ∉ ".[,\"\\\n".toList
  min_free : Free "MIN".toList name
  notAliased : isAliased gen name = false
  notField : ∀ entry ∈ gen.aggrFns.items, entry.2.field ≠ .attr name

def clauseOf (names : List Text) : Text := names.flatMap fun name => docItem name ++ ",".toList

theorem docItem_eq (name : Text) : docItem name = 'd' :: 'o' :: 'c' :: '[' :: '"' :: (name ++ ['"', ']']) := rfl

theorem Plain.addAttr_eq {gen : TuqGenerators} {name : Text} (h : Plain gen name) {attrS : Text} {rest : List Text}
    (hwords : words attrS = name :: rest) (condition : Text) :
    addAttr (condition, gen) attrS = some (condition ++ clauseOf [name], gen) := by
  have hdot : '.' ∉ name := fun hmem => h.chars '.' hmem (by decide)
  have hbracket : '[' ∉ name := fun hmem => h.chars '[' hmem (by decide)
  have hmin : hasWord "MIN".toList name = false := hasWord_of_free h.min_free
  simp only [addAttr, hwords, h.notAliased, attrClause, if_neg hdot, if_neg hbracket, hmin]
  simp [clauseOf]

/-- The loop writes the clause of the names. -/
theorem foldlM_addAttr {gen : TuqGenerators} {pieces : List Text} {items : List OrderItem}
    (hwords : pieces.map words = items.map OrderItem.words) (hplain : ∀ item ∈ items, Plain gen item.name)
    (condition : Text) : pieces.foldlM addAttr (condition, gen)
      = some (condition ++ clauseOf (items.map OrderItem.name), gen) := by
  induction items generalizing pieces condition with
  | nil =>
      obtain rfl := List.map_eq_nil_iff.1 hwords
      simp [clauseOf]
  | cons item items ih =>
      obtain ⟨piece, pieces, rfl⟩ : ∃ piece pieces', pieces = piece :: pieces' := by
        rcases pieces with _ | ⟨piece, pieces⟩
        · cases hwords
        · exact ⟨piece, pieces, rfl⟩
      rw [List.map_cons, List.map_cons, List.cons.injEq] at hwords
      rw [List.forall_mem_cons] at hplain
      rw [List.foldlM_cons, hplain.1.addAttr_eq hwords.1]
      refine (ih hwords.2 hplain.2 _).trans ?_
      simp [clauseOf]

/-- `_get_order_clause` on a list of plain attributes. -/
theorem getOrderClause_text (query : OrderQuery) (limit offset : Option Bound) {gen : TuqGenerators}
    (hquery : gen.query = query.text limit offset) (hplain : ∀ item ∈ query.items, Plain gen item.name) :
    getOrderClause gen = some (some (clauseOf (query.items.map OrderItem.name)), gen) := by
  have hpieces : ((allOrderClause gen.query).splitOn ',').map words = query.items.map OrderItem.words := by
    rw [hquery, query.allOrderClause_text, map_words_splitOn_strip rfl, query.pieces]
  have hmem : hasWord "ORDER BY".toList gen.query = true := hquery ▸ query.hasWord_orderBy limit offset
  rw [getOrderClause, if_pos hmem, foldlM_addAttr hpieces hplain, Option.map_some, List.nil_append]

theorem clauseOf_cons (name : Text) (names : List Text) :
    clauseOf (name :: names) = "doc[".toList ++ '"' :: (name ++ '"' :: ("],".toList ++ clauseOf names)) := by
  simp [clauseOf, docItem_eq]

/-- Between the quotes of a clause are its names, and texts with brackets. -/
theorem mem_splitOn_clauseOf {names : List Text} (h : ∀ name ∈ names, '"' ∉ name) {piece : Text}
    (hpiece : piece ∈ (clauseOf names).splitOn '"') : piece = [] ∨ piece ∈ names ∨ '[' ∈ piece ∨ ']' ∈ piece := by
  induction names generalizing piece with
  | nil => exact .inl (List.mem_singleton.1 hpiece)
  | cons name names ih =>
      rw [List.forall_mem_cons] at h
      have hdoc : '"' ∉ "doc[".toList := by decide
      obtain ⟨first, others, hrest⟩ := List.exists_cons_of_ne_nil (List.splitOn_ne_nil '"' (clauseOf names))
      have hbehind := (SplitOn.pieces_of_whole (List.splitOn_eq_singleton (by decide : '"' ∉ "],".toList))).append hrest
      rw [clauseOf_cons, List.splitOn_append_cons_self_of_not_mem hdoc, List.splitOn_append_cons_self_of_not_mem h.1,
        hbehind, List.nil_append] at hpiece
      rw [hrest] at ih
      rcases List.mem_cons.1 hpiece with rfl | hpiece
      · exact .inr (.inr (.inl (by decide)))
      rcases List.mem_cons.1 hpiece with rfl | hpiece
      · exact .inr (.inl List.mem_cons_self)
      rcases List.mem_cons.1 hpiece with rfl | hpiece
      · exact .inr (.inr (.inr (List.mem_append_left _ (by decide))))
      · exact (ih h.2 (List.mem_cons_of_mem first hpiece)).imp_right (Or.imp_left (List.mem_cons_of_mem name))

theorem mem_quotedNames {pieces : List Text} {name : Text} (h : name ∈ quotedNames env pieces) :
    name ∈ pieces ∧ name ≠ [] ∧ '[' ∉ name ∧ ']' ∉ name := by
  induction pieces using quotedNames.induct env with
  | case1 before name' behind rest hname ih =>
      rw [quotedNames, if_pos hname] at h
      rcases List.mem_cons.1 h with rfl | h
      · have hnot {c : Char} (hc : env.isWord c = false) (hquote : c ≠ '\'') : c ∉ name := by
          intro hmem
          have hall := List.all_eq_true.1 hname.2 c hmem
          simp [hc, hquote] at hall
        exact ⟨by simp, hname.1, hnot env.isWord_bracket.1 (by decide), hnot env.isWord_bracket.2 (by decide)⟩
      · exact ⟨List.mem_cons_of_mem _ (List.mem_cons_of_mem _ (ih h).1), (ih h).2⟩
  | case2 before name' behind rest hname ih =>
      rw [quotedNames, if_neg hname] at h
      exact ⟨List.mem_cons_of_mem _ (ih h).1, (ih h).2⟩
  | case3 pieces hshort =>
      rw [quotedNames] at h
      · cases h
      · exact hshort

theorem clauseOf_free {names : List Text} (h : ∀ name ∈ names, ',' ∉ name) : Free ",\"".toList (clauseOf names) := by
  induction names with
  | nil => decide
  | cons name names ih =>
      rw [List.forall_mem_cons] at h
      have hsplit : clauseOf (name :: names) = docItem name ++ ',' :: clauseOf names := by simp [clauseOf]
      have hitem : ',' ∉ docItem name := by
        simp [docItem_eq, h.1]
      rw [hsplit]
      refine Free.append_of_head (by decide) (Free.of_not_mem (by decide) hitem) fun hocc => ?_
      rcases List.infix_cons_iff.1 hocc with hhere | hrest
      · -- what follows a comma is the next `doc`
        rcases names with _ | ⟨next, names⟩
        · exact absurd hhere (by decide)
        · rw [clauseOf_cons] at hhere
          exact absurd (List.cons_prefix_cons.1 (List.cons_prefix_cons.1 hhere).2).1 (by decide)
      · exact ih h.2 hrest

theorem Plain.renamed_eq {gen : TuqGenerators} {name : Text} (h : Plain gen name) (orderClause : Text) :
    renamed gen orderClause name = orderClause := by
  have hfield : (gen.aggrFns.items.find? fun entry => entry.2.field = .attr name) = none :=
    List.find?_eq_none.2 fun entry hentry => by simpa using h.notField entry hentry
  rw [renamed, h.notAliased, hfield]
  rfl

/-- Nothing is renamed in the clause. -/
theorem orderKey_clauseOf {gen : TuqGenerators} {names : List Text} (h : ∀ name ∈ names, Plain gen name) :
    orderKey env gen (clauseOf names) = clauseOf names := by
  have hquote : ∀ name ∈ names, '"' ∉ name := fun name hname hmem => (h name hname).chars '"' hmem (by decide)
  have hcomma : ∀ name ∈ names, ',' ∉ name := fun name hname hmem => (h name hname).chars ',' hmem (by decide)
  have hquoted : ∀ name ∈ quotedNames env ((clauseOf names).splitOn '"'), name ∈ names := by
    intro name hname
    obtain ⟨hpiece, hne, hopen, hclose⟩ := mem_quotedNames env hname
    rcases mem_splitOn_clauseOf hquote hpiece with hnil | hmem | hbracket | hbracket
    · exact absurd hnil hne
    · exact hmem
    · exact absurd hbracket hopen
    · exact absurd hbracket hclose
  have hloop (found : List Text) (hfound : ∀ name ∈ found, name ∈ names) :
      found.foldl (renamed gen) (clauseOf names) = clauseOf names := by
    induction found with
    | nil => rfl
    | cons name found ih =>
        rw [List.forall_mem_cons] at hfound
        rw [List.foldl_cons, (h name hfound.1).renamed_eq, ih hfound.2]
  rw [orderKey, hloop _ hquoted, replace_of_absent (clauseOf_free hcomma)]

/-! ## The key of plain attributes -/

theorem readSubscripts_name {name : Text} (hquote : '"' ∉ name) (hescape : '\\' ∉ name ∧ '\n' ∉ name) (fuel : ℕ)
    (rest : Text) : readSubscripts (fuel + 1) ('[' :: '"' :: (name ++ '"' :: ']' :: ',' :: rest))
      = some ([.name name], ',' :: rest) := by
  have hall : ∀ c ∈ name, decide (c ≠ '"') = true := by
    intro c hc
    exact decide_eq_true fun heq => hquote (heq ▸ hc)
  have htake : (name ++ '"' :: ']' :: ',' :: rest).takeWhile (· ≠ '"') = name := by
    rw [List.takeWhile_append_of_pos hall, List.takeWhile_cons_of_neg (by decide), List.append_nil]
  have hdrop : (name ++ '"' :: ']' :: ',' :: rest).dropWhile (· ≠ '"') = '"' :: ']' :: ',' :: rest := by
    rw [List.dropWhile_append_of_pos hall, List.dropWhile_cons_of_neg (by decide)]
  have hend : readSubscripts fuel (',' :: rest) = some ([], ',' :: rest) := by
    cases fuel <;> rfl
  rw [readSubscripts, hdrop]
  simp only [htake, hend, if_neg (not_or.2 hescape), Option.map_some]

theorem readTerms_clauseOf {names : List Text}
    (h : ∀ name ∈ names, '"' ∉ name ∧ '\\' ∉ name ∧ '\n' ∉ name) {fuel : ℕ} (hfuel : names.length ≤ fuel) :
    readTerms fuel (clauseOf names) = some (names.map fun name => [.name name]) := by
  induction names generalizing fuel with
  | nil => cases fuel <;> rfl
  | cons name names ih =>
      rw [List.forall_mem_cons] at h
      obtain ⟨fuel, rfl⟩ : ∃ n, fuel = n + 1 := ⟨fuel - 1, by rw [List.length_cons] at hfuel; omega⟩
      have hclause : clauseOf (name :: names)
          = 'd' :: 'o' :: 'c' :: '[' :: '"' :: (name ++ '"' :: ']' :: ',' :: clauseOf names) := by
        simp [clauseOf, docItem_eq]
      rw [hclause, readTerms, List.length_cons, readSubscripts_name h.1.1 h.1.2]
      rw [List.length_cons] at hfuel
      simp [ih h.2 (Nat.le_of_succ_le_succ hfuel)]

theorem length_le_clauseOf (names : List Text) : names.length ≤ (clauseOf names).length := by
  induction names with
  | nil => exact Nat.zero_le _
  | cons name names ih =>
      rw [clauseOf_cons]
      simp only [List.length_append, List.length_cons]
      omega

/-- The key of a document: its values under the names. -/
theorem evalClause_clauseOf {gen : TuqGenerators} {names : List Text} (h : ∀ name ∈ names, Plain gen name)
    (doc : Doc V) : evalClause env (clauseOf names) doc = names.mapM doc.get? := by
  have hchars : ∀ name ∈ names, '"' ∉ name ∧ '\\' ∉ name ∧ '\n' ∉ name := fun name hname =>
    ⟨fun hmem => (h name hname).chars '"' hmem (by decide), fun hmem => (h name hname).chars '\\' hmem (by decide),
      fun hmem => (h name hname).chars '\n' hmem (by decide)⟩
  rw [evalClause, readTerms_clauseOf hchars (length_le_clauseOf names), Option.bind_some, List.mapM_map]
  congr 1
  funext name
  simp [evalTerm]

/-! ## The order that is asked for -/

def OrderItem.desc (item : OrderItem) : Bool := item.direction.any fun direction => env.upper direction = "DESC".toList

theorem isDesc_words (item : OrderItem) : isDesc env item.words = item.desc env := by
  obtain ⟨name, direction⟩ := item
  cases direction <;> rfl

/-- The flag is set if some attribute is `DESC`. -/
theorem isReversed_text (query : OrderQuery) (limit offset : Option Bound) :
    isReversed env (query.text limit offset) = query.items.any (OrderItem.desc env) := by
  have hwords (pieces : List Text) : (pieces.any fun attrS => isDesc env (words attrS))
      = (pieces.map words).any (isDesc env) := by
    rw [List.any_map]
    rfl
  rw [isReversed, query.allOrderClause_text, hwords, map_words_splitOn_strip rfl, query.pieces, List.any_map]
  congr 1
  funext item
  exact isDesc_words env item

def value (doc : Doc V) (name : Text) : WithBot V := (doc.get? name).elim ⊥ fun value => (value : WithBot V)

def row (items : List OrderItem) (doc : Doc V) : List (WithBot V) := items.map fun item => value doc item.name

/-- A document that has all attributes has a key, and the key is its row. -/
theorem exists_key {items : List OrderItem} {doc : Doc V} (h : ∀ item ∈ items, (doc.get? item.name).isSome) :
    ∃ key, (items.map OrderItem.name).mapM doc.get? = some key ∧ row items doc = key.map WithBot.some := by
  induction items with
  | nil => exact ⟨[], rfl, rfl⟩
  | cons item items ih =>
      rw [List.forall_mem_cons] at h
      obtain ⟨v, hv⟩ := Option.isSome_iff_exists.1 h.1
      obtain ⟨key, hkey, hrow⟩ := ih h.2
      refine ⟨v :: key, ?_, ?_⟩
      · rw [List.map_cons, List.mapM_cons, hv, hkey]
        rfl
      · rw [row, List.map_cons, List.map_cons, ← hrow, value, hv]
        rfl

variable [LinearOrder V]

/-- The documents sorted by the attributes from left to right, each in its direction; the sort is stable. -/
def sortedBy (desc : OrderItem → Bool) (items : List OrderItem) (docs : List (Doc V)) : List (Doc V) :=
  docs.insertionSort fun a b => DirLex (items.map desc) (row items a) (row items b)

/-- What the query has to return. -/
def expectedResult (items : List OrderItem) (limit offset : Option Bound) (docs : List (Doc V)) : List (Doc V) :=
  let rest := (sortedBy (OrderItem.desc env) items docs).drop (offset.elim 0 Bound.n)
  limit.elim rest fun bound => rest.take bound.n

/-- Keys are compared as rows are with the flag for each column. -/
theorem key_le_iff {items : List OrderItem} {a b : Doc V} {key key' : List V}
    (hrow : row items a = key.map WithBot.some) (hrow' : row items b = key'.map WithBot.some)
    (reverse : Bool) : (if reverse then key' ≤ key else key ≤ key') ↔
      DirLex (items.map fun _ => reverse) (row items a) (row items b) := by
  have hlength : items.length = key.length := by
    have h := congrArg List.length hrow
    rwa [row, List.length_map, List.length_map] at h
  have hlength' : items.length = key'.length := by
    have h := congrArg List.length hrow'
    rwa [row, List.length_map, List.length_map] at h
  have hdescs : (items.map fun _ => reverse) = key.map fun _ => reverse := by
    rw [List.map_const', List.map_const', hlength]
  rw [hrow, hrow', dirLex_map_iff (fun _ _ => WithBot.coe_lt_coe), hdescs]
  cases reverse with
  | false => exact (dirLex_false_iff (hlength.symm.trans hlength')).symm
  | true => exact (dirLex_true_iff (hlength.symm.trans hlength')).symm

/-- `sorted` with the values of the attributes as the key. -/
theorem map_sortedByKey {items : List OrderItem} {docs : List (Doc V)}
    (hdocs : ∀ doc ∈ docs, ∀ item ∈ items, (doc.get? item.name).isSome) (reverse : Bool) :
    (docs.mapM fun doc : Doc V => ((items.map OrderItem.name).mapM doc.get?).map fun key => (key, doc)).map
        (sortedByKey reverse)
      = some (sortedBy (fun _ => reverse) items docs) := by
  obtain ⟨keyed, hkeyed, hall⟩ : ∃ keyed, (docs.mapM fun doc : Doc V =>
      ((items.map OrderItem.name).mapM doc.get?).map fun key => (key, doc)) = some keyed ∧
        List.Forall₂ (fun doc entry => entry.2 = doc ∧ row items doc = entry.1.map WithBot.some) docs keyed := by
    refine Raises.exists_mapM fun doc hdoc => ?_
    obtain ⟨key, hkey, hrow⟩ := exists_key (hdocs doc hdoc)
    exact ⟨(key, doc), by rw [hkey]; rfl, rfl, hrow⟩
  have hrows : keyed.map Prod.snd = docs ∧ ∀ entry ∈ keyed, row items entry.2 = entry.1.map WithBot.some := by
    clear hkeyed hdocs
    induction hall with
    | nil => exact ⟨rfl, fun _ h => absurd h List.not_mem_nil⟩
    | cons h _ ih =>
        rw [List.map_cons, ih.1, h.1, List.forall_mem_cons]
        exact ⟨rfl, h.1 ▸ h.2, ih.2⟩
  rw [hkeyed, Option.map_some, sortedByKey]
  refine congrArg some ?_
  calc _ = (keyed.map Prod.snd).insertionSort
        (fun a b => DirLex (items.map fun _ => reverse) (row items a) (row items b)) :=
        List.map_insertionSort _ _ _ _ fun a ha b hb => key_le_iff (hrows.2 a ha) (hrows.2 b hb) reverse
    _ = sortedBy (fun _ => reverse) items docs := by rw [hrows.1, sortedBy]

/-- The order of the code: one direction for all attributes. -/
theorem orderResults_text (query : OrderQuery) (limit offset : Option Bound) {gen : TuqGenerators}
    (hquery : gen.query = query.text limit offset) (hselected : gen.attrOrderClauseGreaterThanSelect = [])
    (hplain : ∀ item ∈ query.items, Plain gen item.name) {docs : List (Doc V)}
    (hdocs : ∀ doc ∈ docs, ∀ item ∈ query.items, (doc.get? item.name).isSome) :
    orderResults env gen docs = some (sortedBy (fun _ => query.items.any (OrderItem.desc env)) query.items docs) := by
  have hnames : ∀ name ∈ query.items.map OrderItem.name, Plain gen name := by
    intro name hname
    obtain ⟨item, hitem, rfl⟩ := List.mem_map.1 hname
    exact hplain item hitem
  have hclause := getOrderClause_text query limit offset hquery hplain
  have hsorted : sortedResults env gen (some (clauseOf (query.items.map OrderItem.name))) docs
      = some (sortedBy (fun _ => query.items.any (OrderItem.desc env)) query.items docs) := by
    rw [sortedResults, orderKey_clauseOf env hnames, hquery, isReversed_text]
    simp only [evalClause_clauseOf env hnames]
    exact map_sortedByKey hdocs _
  simp only [orderResults, hclause, Option.map_some, hsorted, hselected]
  rfl

/-- The whole result, from the order of the code. -/
theorem orderedResult_text (query : OrderQuery) (limit offset : Option Bound) {gen : TuqGenerators}
    (hselected : gen.attrOrderClauseGreaterThanSelect = []) (hplain : ∀ item ∈ query.items, Plain gen item.name)
    {docs : List (Doc V)} (hdocs : ∀ doc ∈ docs, ∀ item ∈ query.items, (doc.get? item.name).isSome) :
    orderedResult env { gen with query := query.text limit offset } docs =
      let rest := (sortedBy (fun _ => query.items.any (OrderItem.desc env)) query.items docs).drop
        (offset.elim 0 Bound.n)
      some (limit.elim rest fun bound => rest.take bound.n) := by
  have hquery : ({ gen with query := query.text limit offset } : TuqGenerators).query = query.text limit offset := rfl
  have horder := orderResults_text env query limit offset hquery hselected
    (fun item hitem => ⟨(hplain item hitem).chars, (hplain item hitem).min_free, (hplain item hitem).notAliased,
      (hplain item hitem).notField⟩) hdocs
  rw [orderedResult, horder, Option.bind_some, query.limitAndOffset_text]

/-! ## Where one direction is enough -/

omit [LinearOrder V] in
theorem value_eq_iff {doc doc' : Doc V} {name : Text} :
    value doc name = value doc' name ↔ doc.get? name = doc'.get? name := by
  rw [value, value]
  cases doc.get? name <;> cases doc'.get? name <;> simp

/-- Of two documents, the first attribute in which they differ is descending exactly when some attribute is. -/
def OneDirection (items : List OrderItem) (doc doc' : Doc V) : Prop :=
  ∀ before item after, items = before ++ item :: after →
    (∀ other ∈ before, doc.get? other.name = doc'.get? other.name) → doc.get? item.name ≠ doc'.get? item.name →
      item.desc env = items.any (OrderItem.desc env)

theorem oneDirection_iff {items : List OrderItem} {doc doc' : Doc V} :
    (DirLex (items.map (OrderItem.desc env)) (row items doc) (row items doc') ↔
        DirLex (items.map fun _ => items.any (OrderItem.desc env)) (row items doc) (row items doc')) ↔
      OneDirection env items doc doc' := by
  rw [row, row, dirLex_agree_iff (OrderItem.desc env) (fun _ => items.any (OrderItem.desc env))
    (fun item => value doc item.name) (fun item => value doc' item.name) items]
  simp only [ne_eq, value_eq_iff, OneDirection]

/-- **The results are in the order that was asked for, whatever the limit and the offset are, if and only if of any two
    documents the first attribute in which they differ is descending exactly when some attribute is.** -/
theorem orderedResult_eq_iff (query : OrderQuery) {gen : TuqGenerators}
    (hselected : gen.attrOrderClauseGreaterThanSelect = []) (hplain : ∀ item ∈ query.items, Plain gen item.name)
    {docs : List (Doc V)} (hdocs : ∀ doc ∈ docs, ∀ item ∈ query.items, (doc.get? item.name).isSome) :
    (∀ limit offset, orderedResult env { gen with query := query.text limit offset } docs
        = some (expectedResult env query.items limit offset docs)) ↔
      ∀ doc ∈ docs, ∀ doc' ∈ docs, OneDirection env query.items doc doc' := by
  have hsame : sortedBy (OrderItem.desc env) query.items docs
        = sortedBy (fun _ => query.items.any (OrderItem.desc env)) query.items docs ↔
      ∀ doc ∈ docs, ∀ doc' ∈ docs, OneDirection env query.items doc doc' := by
    rw [sortedBy, sortedBy, insertionSort_eq_iff]
    simp only [oneDirection_iff]
    constructor
    · intro h
      have hswap : docs.Pairwise (flip (OneDirection env query.items)) :=
        h.imp fun hone before item after hsplit hbefore hne =>
          hone before item after hsplit (fun other hother => (hbefore other hother).symm) hne.symm
      have hself : ∀ doc ∈ docs, OneDirection env query.items doc doc :=
        fun doc _ before item after _ _ hne => absurd rfl hne
      exact fun doc hdoc doc' hdoc' => h.forall_of_forall_of_flip hself hswap hdoc hdoc'
    · exact fun h => List.pairwise_of_forall_mem_list fun doc hdoc doc' hdoc' => h doc hdoc doc' hdoc'
  refine Iff.trans ?_ hsame
  constructor
  · intro h
    have hall := h none none
    rw [orderedResult_text env query none none hselected hplain hdocs] at hall
    exact (Option.some.inj hall).symm
  · intro h limit offset
    rw [orderedResult_text env query limit offset hselected hplain hdocs, expectedResult, h]

section Mixed

def plainEnv : Env ℕ where
  isWord c := c.isAlphanum || c = '_'
  isWord_bracket := by decide
  upper text := text.map Char.toUpper
  item _ _ := none

def noClauses : TuqGenerators := ⟨[], ∅, ∅, ∅, [], false⟩

def document (entries : List (Text × ℕ)) : Doc ℕ := entries.foldl (fun doc entry => doc.set entry.1 entry.2) ∅

def orderBy (list : Text) (items : List OrderItem)
    (free : Free "ORDER BY".toList list ∧ Free "LIMIT".toList list ∧ Free "OFFSET".toList list) (line : '\n' ∉ list)
    (pieces : (list.splitOn ',').map words = items.map OrderItem.words) : OrderQuery where
  head := "SELECT * FROM default ".toList
  list := list
  items := items
  line := by
    rw [List.mem_append, not_or]
    exact ⟨by decide, line⟩
  head_free := by decide
  list_free := free
  pieces := pieces

/-- `ORDER BY a DESC, b`. -/
def mixed : OrderQuery :=
  orderBy " a DESC, b ".toList [⟨"a".toList, some "DESC".toList⟩, ⟨"b".toList, none⟩] (by decide) (by decide)
    (by decide)

/-- `ORDER BY ADMIN`. -/
def admin : OrderQuery := orderBy " ADMIN".toList [⟨"ADMIN".toList, none⟩] (by decide) (by decide) (by decide)

def tied : List (Doc ℕ) :=
  [document [("a".toList, 1), ("b".toList, 2)], document [("a".toList, 1), ("b".toList, 1)]]

def admins : List (Doc ℕ) := [document [("ADMIN".toList, 2)], document [("ADMIN".toList, 1)]]

/-- Behind a `DESC` the next attribute is descending as well, and a name with `MIN` in it is taken for an aggregate. -/
theorem orderedResult_mixed :
    orderedResult plainEnv { noClauses with query := mixed.text none none } tied
        ≠ some (expectedResult plainEnv mixed.items none none tied) ∧
      orderedResult plainEnv { noClauses with query := admin.text none none } admins
        ≠ some (expectedResult plainEnv admin.items none none admins) := by
  decide

/-- Two documents that `a` tells apart. -/
def apart : List (Doc ℕ) :=
  [document [("a".toList, 1), ("b".toList, 2)], document [("a".toList, 2), ("b".toList, 1)]]

/-- They are in order, whatever the limit and the offset are. -/
theorem orderedResult_eq_apart :
    expectedResult plainEnv mixed.items none none apart = apart.reverse ∧
      ∀ limit offset, orderedResult plainEnv { noClauses with query := mixed.text limit offset } apart
        = some (expectedResult plainEnv mixed.items limit offset apart) := by
  have hfield {name : Text} : ∀ entry ∈ noClauses.aggrFns.items, entry.2.field ≠ .attr name :=
    fun _ hentry => absurd hentry List.not_mem_nil
  have hplain : ∀ item ∈ mixed.items, Plain noClauses item.name := by
    intro item hitem
    rcases List.mem_pair.1 hitem with rfl | rfl
    · exact ⟨fun _ hc => disjoint_of_all (by decide) hc, by decide, by decide, hfield⟩
    · exact ⟨fun _ hc => disjoint_of_all (by decide) hc, by decide, by decide, hfield⟩
  refine ⟨by decide, (orderedResult_eq_iff plainEnv mixed rfl hplain (by decide)).2 ?_⟩
  intro doc hdoc doc' hdoc' before item after hitems hsame hne
  rcases before with _ | ⟨first, before⟩
  · -- `a` is descending, and so some attribute is
    obtain rfl : (⟨"a".toList, some "DESC".toList⟩ : OrderItem) = item := (List.cons.inj hitems).1
    rfl
  · -- documents with the same `a` are the same
    obtain rfl : (⟨"a".toList, some "DESC".toList⟩ : OrderItem) = first := (List.cons.inj hitems).1
    have hfirst := hsame _ List.mem_cons_self
    have htold : ∀ doc ∈ apart, ∀ doc' ∈ apart, doc.get? "a".toList = doc'.get? "a".toList → doc = doc' := by decide
    exact absurd (congrArg (fun doc => doc.get? item.name) (htold doc hdoc doc' hdoc' hfirst)) hne

end Mixed

end Tuq
