import TestInfra.Lib.Dict

set_option autoImplicit false

/-! # Document generators and their batches

`KVGenerator` (`lib/couchbase_helper/documentgenerator.py`) counts `itr` from `start` up to `end`; the
document of one position is a parameter, as the generators differ only in it. A
`BatchedDocumentGenerator` cuts the sequence into dictionaries of at most `batch_size` documents. -/

namespace TestInfra

/-- A generator; `stop` is the source's `end`, `doc` the document `__next__` makes at a position, and
    `isBase64` says whether its class is `Base64Generator`. -/
structure KVGenerator (V : Type*) where
  start : Int
  stop : Int
  itr : Int
  doc : Int → String × V
  isBase64 : Bool := false

namespace KVGenerator

variable {V : Type*}

/-- `has_next`. -/
def hasNext (g : KVGenerator V) : Bool := decide (g.itr < g.stop)

/-- `__next__`, once `has_next` has been asked. -/
def next (g : KVGenerator V) : (String × V) × KVGenerator V := (g.doc g.itr, { g with itr := g.itr + 1 })

/-- The documents still to come. -/
def rest (g : KVGenerator V) : List (String × V) :=
  (List.range (g.stop - g.itr).toNat).map fun j : Nat => g.doc (g.itr + (j : Int))

theorem rest_of_not_hasNext {g : KVGenerator V} (h : g.hasNext = false) : g.rest = [] := by
  have hle : ¬ g.itr < g.stop := by simpa [hasNext] using h
  have hzero : (g.stop - g.itr).toNat = 0 := by omega
  simp [rest, hzero]

theorem rest_of_hasNext {g : KVGenerator V} (h : g.hasNext = true) :
    g.rest = g.next.1 :: g.next.2.rest := by
  have hlt : g.itr < g.stop := by simpa [hasNext] using h
  obtain ⟨m, hm⟩ : ∃ m, (g.stop - g.itr).toNat = m + 1 := ⟨(g.stop - g.itr).toNat - 1, by omega⟩
  have hm' : (g.stop - (g.itr + 1)).toNat = m := by omega
  simp only [rest, next, hm, hm', List.range_succ_eq_map, List.map_cons, List.map_map]
  congr 1
  · simp
  · refine List.map_congr_left fun j _ => ?_
    simp only [Function.comp_apply, Nat.succ_eq_add_one]
    congr 1
    omega

end KVGenerator

/-- `BatchedDocumentGenerator`; a size below 1 is refused when it is built. -/
structure BatchedDocumentGenerator (V : Type*) where
  docGen : KVGenerator V
  batchSize : Nat
  batchSize_pos : 0 < batchSize

namespace BatchedDocumentGenerator

variable {V : Type*}

def hasNext (b : BatchedDocumentGenerator V) : Bool := b.docGen.hasNext

/-- The loop of `next_batch` with `count` documents left to take. -/
def takeBatch : Nat → KVGenerator V → Dict String V → Dict String V × KVGenerator V
  | 0, g, keyVal => (keyVal, g)
  | count + 1, g, keyVal =>
      if g.hasNext then takeBatch count g.next.2 (keyVal.set g.next.1.1 g.next.1.2) else (keyVal, g)

/-- `next_batch`. -/
def nextBatch (b : BatchedDocumentGenerator V) : Dict String V × BatchedDocumentGenerator V :=
  ((takeBatch b.batchSize b.docGen ∅).1, { b with docGen := (takeBatch b.batchSize b.docGen ∅).2 })

/-- The batch holds the next `batch_size` documents, and the generator stands right after them. -/
theorem takeBatch_spec (count : Nat) (g : KVGenerator V) (keyVal : Dict String V) :
    (takeBatch count g keyVal).1 = (g.rest.take count).foldl (fun d e => d.set e.1 e.2) keyVal ∧
      (takeBatch count g keyVal).2.rest = g.rest.drop count := by
  induction count generalizing g keyVal with
  | zero => exact ⟨rfl, rfl⟩
  | succ count ih =>
      rw [takeBatch]
      cases hn : g.hasNext with
      | true =>
          obtain ⟨hval, hgen⟩ := ih g.next.2 (keyVal.set g.next.1.1 g.next.1.2)
          rw [if_pos rfl, KVGenerator.rest_of_hasNext hn]
          exact ⟨hval, hgen⟩
      | false =>
          rw [if_neg (by decide), KVGenerator.rest_of_not_hasNext hn]
          exact ⟨by rw [List.take_nil, List.foldl_nil], by rw [List.drop_nil]⟩

theorem nextBatch_fst (b : BatchedDocumentGenerator V) :
    b.nextBatch.1 = (b.docGen.rest.take b.batchSize).foldl (fun d e => d.set e.1 e.2) ∅ :=
  (takeBatch_spec _ _ _).1

theorem nextBatch_rest (b : BatchedDocumentGenerator V) :
    b.nextBatch.2.docGen.rest = b.docGen.rest.drop b.batchSize :=
  (takeBatch_spec _ _ _).2

end BatchedDocumentGenerator

end TestInfra
