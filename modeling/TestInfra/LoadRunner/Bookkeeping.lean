import TestInfra.LoadRunner.LoadThread

set_option autoImplicit false

/-! # What a load thread counts

`self.size` is to be the size of the values a thread has in the system and `self.items` the number of its keys, so
that the limits on them end the run.

`turnSet` looks for the size that a key had before among the mutation indexes up to the current one, which is one of
them: the size never changes. Key 0 is not above the maximum of the start: it is not counted. `Inv.Books` has this for
every run, and the bookkeeping is exact only as long as nothing is written (`bookkeeping_exact_iff`). -/

namespace TestInfra.LoadRunner

open PyText

namespace LoadInfo

variable (info : LoadInfo)

/-! ## What is written -/

/-- The key and the data of a set that the server takes in this turn. -/
def writes (st : LoadThread) (accepts : Bool) : Option (Text × Text) :=
  if st.status = .running ∧ info.limited st.toProgress = false ∧ info.operation st.toProgress = .set ∧
      accepts = true then
    some (info.keyName (info.mutationKey st), (info.getData st.mutationIndex st.dataCache).1)
  else none

/-- The values with what is written in this turn. -/
def record (values : Dict Text Text) : Option (Text × Text) → Dict Text Text
  | some write => values.set write.1 write.2
  | none => values

/-- The values that a run writes last to each of its keys. -/
def written : List Bool → LoadThread → Dict Text Text → Dict Text Text
  | [], _, values => values
  | accepts :: answers, st, values =>
      written answers (info.turn st accepts) (record values (info.writes st accepts))

/-- The sizes of the values. -/
def sizes (values : Dict Text Text) : ℕ := (values.items.map fun item => item.2.length).sum

/-- The counters are right, and the thread does not go on above a limit. -/
structure Exact (st : LoadThread) (values : Dict Text Text) : Prop where
  size : st.size = sizes values
  items : st.items = values.keys.length
  stops : ∀ accepts, st.status = .running →
    (info.limitItems ≠ 0 ∧ info.limitItems < values.keys.length) ∨
      (info.limitSize ≠ 0 ∧ info.limitSize < sizes values) →
    (info.turn st accepts).status = .returned

/-- The bookkeeping is exact at the start of a run and after each of its turns. -/
def Bookkeeps (answers : List Bool) (st : LoadThread) : Prop :=
  ∀ done rest, answers = done ++ rest → info.Exact (info.run done st) (info.written done st ∅)

/-! ## What is counted -/

variable {info} {st : LoadThread} {values : Dict Text Text}

/-- The current index is the last one of its key. -/
theorem max_getMutationIndexes_current (st : LoadThread) :
    (info.rates.getMutationIndexes st.mutationIndex (info.mutationKey st)).max? = some st.mutationIndex := by
  rw [List.max?_eq_some_iff]
  refine ⟨(Rates.mem_getMutationIndexes_iff _).2 ⟨Nat.le_refl _, rfl⟩, fun index hindex => ?_⟩
  exact ((Rates.mem_getMutationIndexes_iff index).1 hindex).1

/-- The counters against the values that are written: the size is never counted, and one key is missed. -/
structure Books (info : LoadInfo) (st : LoadThread) (values : Dict Text Text) : Prop where
  size : st.size = 0
  items : st.items = st.mutationIndexMax
  length_keys : values.keys.length = if st.mutationIndex = 0 then 0 else st.mutationIndexMax + 1
  mem_keys : ∀ name, name ∈ values.keys ↔
    ∃ index < st.mutationIndex, name = info.keyName (info.rates.getMutationKey index)
  le_max : ∀ index < st.mutationIndex, info.rates.getMutationKey index ≤ st.mutationIndexMax
  max_mem : 0 < st.mutationIndex →
    ∃ index < st.mutationIndex, info.rates.getMutationKey index = st.mutationIndexMax
  max_zero : st.mutationIndex = 0 → st.mutationIndexMax = 0

variable (info) in
theorem books_start (server : Dict Text Text) : info.Books (.start server) ∅ where
  size := rfl
  items := rfl
  length_keys := rfl
  mem_keys := by simp [LoadThread.start, Progress.start]
  le_max := fun index h => absurd h (Nat.not_lt_zero index)
  max_mem := fun h => absurd h (Nat.lt_irrefl 0)
  max_zero := fun _ => rfl

/-- A turn that leaves the counters of sets alone. -/
theorem Books.of_eq {st' : LoadThread} (h : info.Books st values) (hsize : st'.size = st.size)
    (hitems : st'.items = st.items) (hmax : st'.mutationIndexMax = st.mutationIndexMax)
    (hindex : st'.mutationIndex = st.mutationIndex) : info.Books st' values where
  size := hsize.trans h.size
  items := by rw [hitems, hmax, h.items]
  length_keys := by rw [hindex, hmax, h.length_keys]
  mem_keys := by rw [hindex]; exact h.mem_keys
  le_max := by rw [hindex, hmax]; exact h.le_max
  max_mem := by rw [hindex, hmax]; exact h.max_mem
  max_zero := by rw [hindex, hmax]; exact h.max_zero

/-- A key up to the maximum was written. -/
theorem Books.keyName_mem (h : info.Books st values) (hpos : 0 < st.mutationIndex) {key : ℕ}
    (hkey : key ≤ st.mutationIndexMax) : info.keyName key ∈ values.keys := by
  obtain ⟨last, hlast, hmax⟩ := h.max_mem hpos
  rw [h.mem_keys]
  rcases Nat.eq_or_lt_of_le hkey with rfl | hlt
  · exact ⟨last, hlast, by rw [hmax]⟩
  · obtain ⟨index, hindex, heq⟩ := info.rates.exists_index_of_lt (hmax ▸ hlt)
    exact ⟨index, Nat.lt_trans hindex hlast, by rw [heq]⟩

/-- A new key follows the maximum. -/
theorem Books.mutationKey_le (h : info.Books st values) : info.mutationKey st ≤ st.mutationIndexMax + 1 := by
  by_contra hgt
  obtain ⟨index, hindex, heq⟩ := info.rates.exists_index_of_lt (Nat.lt_of_not_le hgt)
  have := h.le_max index hindex
  omega

theorem Books.keyName_not_mem (h : info.Books st values) (hnew : st.mutationIndexMax < info.mutationKey st) :
    info.keyName (info.mutationKey st) ∉ values.keys := by
  intro hmem
  obtain ⟨index, hindex, heq⟩ := (h.mem_keys _).1 hmem
  have := h.le_max index hindex
  have := info.keyName_injective heq
  omega

section TurnSet

variable (data : Text)

/-- The keys are those of the indexes that were set. -/
theorem Books.mem_keys_set (h : info.Books st values) (name : Text) :
    name ∈ (values.set (info.keyName (info.mutationKey st)) data).keys ↔
      ∃ index < (info.turnSet true st).mutationIndex, name = info.keyName (info.rates.getMutationKey index) := by
  have hindex : (info.turnSet true st).mutationIndex = st.mutationIndex + 1 := rfl
  rw [Dict.mem_keys_set, h.mem_keys, hindex]
  simp only [Nat.lt_succ_iff_lt_or_eq, or_and_right, exists_or, exists_eq_left, mutationKey]
  exact or_comm

/-- The size stays: the previous index of the key that is looked up is the current one. -/
theorem size_turnSet (st : LoadThread) : (info.turnSet true st).size = st.size := by
  simp [LoadInfo.turnSet, LoadPlan.countSet, max_getMutationIndexes_current]

/-- A set of a key above the maximum: it is counted. -/
theorem Books.turnSet_new (h : info.Books st values) (hnew : st.mutationIndexMax < info.mutationKey st) :
    info.Books (info.turnSet true st) (values.set (info.keyName (info.mutationKey st)) data) := by
  have hmax : (info.turnSet true st).mutationIndexMax = info.mutationKey st := by
    simp [LoadInfo.turnSet, LoadPlan.countSet, hnew]
  have hitems : (info.turnSet true st).items = st.items + 1 := by simp [LoadInfo.turnSet, LoadPlan.countSet, hnew]
  have hkey : info.mutationKey st = st.mutationIndexMax + 1 := by
    have := h.mutationKey_le
    omega
  have hpos : 0 < st.mutationIndex := (mutationKey_pos_iff st).1 (Nat.zero_lt_of_lt hnew)
  refine ⟨(size_turnSet st).trans h.size, ?_, ?_, h.mem_keys_set data, ?_, ?_, ?_⟩
  · rw [hitems, hmax, hkey, h.items]
  · rw [Dict.keys_set, if_neg (h.keyName_not_mem hnew), List.length_append, h.length_keys, hmax, hkey,
      if_neg (Nat.ne_of_gt hpos)]
    rfl
  · intro index hlt
    rw [hmax]
    rcases Nat.lt_succ_iff_lt_or_eq.1 hlt with hlt | rfl
    · exact Nat.le_trans (h.le_max index hlt) (Nat.le_of_lt hnew)
    · exact Nat.le_refl _
  · exact fun _ => ⟨st.mutationIndex, Nat.lt_succ_self _, hmax.symm⟩
  · exact fun hzero => absurd hzero (Nat.succ_ne_zero _)

/-- A set of a key up to the maximum, which is one that was written, or key 0 at the first set. -/
theorem Books.turnSet_known (h : info.Books st values) (hknown : info.mutationKey st ≤ st.mutationIndexMax) :
    info.Books (info.turnSet true st) (values.set (info.keyName (info.mutationKey st)) data) := by
  have hmax : (info.turnSet true st).mutationIndexMax = st.mutationIndexMax := by
    simp [LoadInfo.turnSet, LoadPlan.countSet, Nat.not_lt.2 hknown]
  have hitems : (info.turnSet true st).items = st.items := by
    simp [LoadInfo.turnSet, LoadPlan.countSet, Nat.not_lt.2 hknown]
  have hne : (info.turnSet true st).mutationIndex ≠ 0 := Nat.succ_ne_zero _
  refine ⟨(size_turnSet st).trans h.size, ?_, ?_, h.mem_keys_set data, ?_, ?_, ?_⟩
  · rw [hitems, hmax, h.items]
  · rw [Dict.keys_set, hmax, if_neg hne]
    rcases Nat.eq_zero_or_pos st.mutationIndex with hzero | hpos
    · have hempty : values.keys = [] := List.eq_nil_of_length_eq_zero (by rw [h.length_keys, if_pos hzero])
      rw [hempty, if_neg List.not_mem_nil, h.max_zero hzero]
      rfl
    · rw [if_pos (h.keyName_mem hpos hknown), h.length_keys, if_neg (Nat.ne_of_gt hpos)]
  · intro index hlt
    rw [hmax]
    rcases Nat.lt_succ_iff_lt_or_eq.1 hlt with hlt | rfl
    · exact h.le_max index hlt
    · exact hknown
  · intro _
    rw [hmax]
    rcases Nat.eq_zero_or_pos st.mutationIndex with hzero | hpos
    · refine ⟨0, Nat.succ_pos _, ?_⟩
      rw [h.max_zero hzero]
      exact Nat.zero_sub _
    · obtain ⟨index, hlt, heq⟩ := h.max_mem hpos
      exact ⟨index, Nat.lt_succ_of_lt hlt, heq⟩
  · exact fun hzero => absurd hzero hne

/-- A set that is taken. -/
theorem Books.turnSet (h : info.Books st values) :
    info.Books (info.turnSet true st) (values.set (info.keyName (info.mutationKey st)) data) := by
  rcases Nat.lt_or_ge st.mutationIndexMax (info.mutationKey st) with hnew | hknown
  · exact h.turnSet_new data hnew
  · exact h.turnSet_known data hknown

end TurnSet

/-- A get does not count. -/
theorem Books.turnGet (h : info.Books st values) (accepts : Bool) : info.Books (info.turnGet accepts st) values := by
  unfold LoadInfo.turnGet
  split
  · exact h.of_eq rfl rfl rfl rfl
  · split
    · dsimp only
      split
      · exact h.of_eq rfl rfl rfl rfl
      · split
        · exact h.of_eq rfl rfl rfl rfl
        · exact h.of_eq rfl rfl rfl rfl
    · exact h.of_eq rfl rfl rfl rfl

theorem Books.turn (h : info.Books st values) (accepts : Bool) :
    info.Books (info.turn st accepts) (record values (info.writes st accepts)) := by
  unfold LoadInfo.turn writes
  by_cases hrunning : st.status = .running
  · cases hlimited : info.limited st.toProgress with
    | true =>
        have hreturned : info.Books { st with status := .returned } values := h.of_eq rfl rfl rfl rfl
        simpa [LoadPlan.choose, hrunning, hlimited, record] using hreturned
    | false =>
        rw [LoadPlan.choose_of_running hrunning hlimited]
        cases hop : info.operation st.toProgress with
        | set =>
            cases accepts with
            | true => simpa [hrunning, record] using h.turnSet (info.getData st.mutationIndex st.dataCache).1
            | false =>
                have hrejected : info.Books (info.turnSet false st) values := h.of_eq rfl rfl rfl rfl
                simpa [hrunning, record] using hrejected
        | get => simpa [hrunning, record] using h.turnGet accepts
        | other name => simpa [hrunning, record] using h
  · simpa [LoadPlan.choose_of_not_running hrunning, hrunning, record] using h

/-- **What is counted instead**: in every run, nothing of the size and every key but one. -/
theorem Books.run (h : info.Books st values) (answers : List Bool) :
    info.Books (info.run answers st) (info.written answers st values) := by
  induction answers generalizing st values with
  | nil => exact h
  | cons accepts answers ih => exact ih (h.turn accepts)

/-- The counters are right as long as nothing is written. -/
theorem Books.exact_iff (h : info.Books st values) : info.Exact st values ↔ values.keys = [] := by
  constructor
  · intro hexact
    have hitems := hexact.items
    rw [h.items, h.length_keys] at hitems
    split at hitems
    · next hzero =>
        apply List.eq_nil_of_length_eq_zero
        rw [h.length_keys, if_pos hzero]
    · omega
  · intro hkeys
    have hsizes : sizes values = 0 := by
      have hitems : values.items = [] := List.map_eq_nil_iff.1 hkeys
      rw [sizes, hitems]
      rfl
    have hzero : st.mutationIndex = 0 := by
      by_contra hne
      have hlength := h.length_keys
      rw [hkeys, if_neg hne] at hlength
      exact absurd hlength (Nat.succ_ne_zero _).symm
    refine ⟨?_, ?_, ?_⟩
    · rw [h.size, hsizes]
      rfl
    · rw [h.items, h.max_zero hzero, hkeys]
      rfl
    · rw [hkeys, hsizes]
      rintro accepts - (⟨-, hlt⟩ | ⟨-, hlt⟩)
      · exact absurd hlt (Nat.not_lt_zero _)
      · exact absurd hlt (Nat.not_lt_zero _)

/-! ## Runs that write nothing -/

variable (info) in
/-- The first operation is no set, or the server takes none. -/
def WritesNothing (answers : List Bool) : Prop :=
  info.firstOperation ≠ .set ∨ ∀ accepts ∈ answers, accepts = false

/-- A thread that does not run writes nothing. -/
theorem written_of_not_running (hst : st.status ≠ .running) (answers : List Bool) (values : Dict Text Text) :
    info.written answers st values = values := by
  induction answers with
  | nil => rfl
  | cons accepts answers ih =>
      have hturn : info.turn st accepts = st := LoadPlan.choose_of_not_running hst
      have hwrites : info.writes st accepts = none := if_neg fun h => hst h.1
      rw [written, hturn, hwrites]
      exact ih

variable (info) in
/-- What is written stays written. -/
theorem keys_subset_written (answers : List Bool) (st : LoadThread) (values : Dict Text Text) :
    values.keys ⊆ (info.written answers st values).keys := by
  induction answers generalizing st values with
  | nil => exact List.Subset.refl _
  | cons accepts answers ih =>
      refine List.Subset.trans ?_ (ih _ _)
      unfold record
      split
      · exact fun name hname => (Dict.mem_keys_set ..).2 (.inr hname)
      · exact List.Subset.refl _

theorem writes_of_fresh (h : Fresh st.toProgress) (accepts : Bool) :
    info.writes st accepts = if info.firstOperation = .set ∧ accepts = true then
      some (info.keyName (info.mutationKey st), (info.getData st.mutationIndex st.dataCache).1) else none := by
  simp only [writes, h.status, h.not_limited, h.operation_eq, true_and]

/-- From the start, a run writes nothing exactly in these cases. -/
theorem written_iff (h : Fresh st.toProgress) (answers : List Bool) :
    (info.written answers st ∅).keys = [] ↔ info.WritesNothing answers := by
  induction answers generalizing st with
  | nil => exact iff_of_true rfl (.inr fun accepts haccepts => absurd haccepts List.not_mem_nil)
  | cons accepts answers ih =>
      unfold WritesNothing at ih ⊢
      rw [written, turn, h.choose_eq, writes_of_fresh h, List.forall_mem_cons]
      cases hop : info.firstOperation with
      | other name =>
          rw [hop] at ih
          simpa [record] using ih h
      | get =>
          have hdied : (info.turnGet accepts st).status ≠ .running := by
            have hkey : info.getKey st = none := by
              rw [getKey, mutationKey, h.mutationIndex]
              exact if_pos (Nat.zero_sub _)
            simp [LoadInfo.turnGet, hkey]
          simp [record, written_of_not_running hdied]
      | set =>
          rw [hop] at ih
          cases accepts with
          | false =>
              have hnext : Fresh (info.turnSet false st).toProgress := h.backOff
              simpa [record] using ih hnext
          | true =>
              refine iff_of_false (fun hkeys => ?_) (by simp)
              have hsub := keys_subset_written info answers (info.turnSet true st)
                ((∅ : Dict Text Text).set (info.keyName (info.mutationKey st))
                  (info.getData st.mutationIndex st.dataCache).1)
              have hmem := hsub ((Dict.mem_keys_set ..).2 (.inl rfl))
              simp only [and_self, if_true, record] at hkeys
              rw [hkeys] at hmem
              exact absurd hmem List.not_mem_nil

theorem WritesNothing.of_append {done rest : List Bool} (h : info.WritesNothing (done ++ rest)) :
    info.WritesNothing done :=
  h.imp_right fun hall accepts haccepts => hall accepts (List.mem_append_left _ haccepts)

end LoadInfo

/-- **When the bookkeeping is exact**: after every turn of a run the counters are those of what was written, and the
    limits on them end the run, exactly if the run writes nothing: its first operation is no set, or the server takes
    none. -/
theorem bookkeeping_exact_iff (info : LoadInfo) (server : Dict Text Text) (answers : List Bool) :
    info.Bookkeeps answers (.start server) ↔ info.WritesNothing answers := by
  have hbooks := fun done => (info.books_start server).run done
  constructor
  · intro hexact
    have hfresh : Fresh (LoadThread.start server).toProgress := .start
    rw [← LoadInfo.written_iff hfresh]
    exact (hbooks answers).exact_iff.1 (hexact answers [] (List.append_nil _).symm)
  · rintro hnothing done rest rfl
    rw [(hbooks done).exact_iff, LoadInfo.written_iff .start]
    exact hnothing.of_append

/-- One set that the server takes: its key is not counted, nor its size. -/
theorem bookkeeping_wrong : ¬ sampleInfo.Bookkeeps [true] (.start ∅) := by
  intro hexact
  have hitems := (hexact [true] [] rfl).items
  revert hitems
  decide +kernel

end TestInfra.LoadRunner
