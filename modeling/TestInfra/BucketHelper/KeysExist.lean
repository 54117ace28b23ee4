import Mathlib.Data.List.Basic
import Mathlib.Data.List.Nodup
import Mathlib.Data.List.Perm.Basic
import Mathlib.Algebra.Order.Ring.Nat
import Mathlib.Tactic.Ring

set_option autoImplicit false

/-! # Keys looked for by several threads

`BucketOperationHelper.keys_exist_or_assert_in_parallel` (`lib/membase/helper/bucket_helper.py`) cuts the keys into
chunks of `len(keys) // concurrency` and gives each of its threads one. A thread tries up to five times to find its
keys, and puts `False` into a queue if some are left.

The rest of the division is one more chunk, that no thread gets, and fewer keys than threads make a range with steps
of 0. A thread that cannot open its client, or for which a get raises anything but a `MemcachedError`, ends before it
puts anything, and the queue without its `False` reads as success (`keysExist_right_iff`). -/

namespace TestInfra.BucketHelper

variable {K : Type*}

/-! ## The chunks and the threads -/

/-- `range(0, stop, step)`, for a positive step. -/
def rangeStep (stop step : ℕ) : List ℕ := (List.range ((stop + step - 1) / step)).map (· * step)

/-- `chunks`, under the indexes 0, 1, ..; a step of 0 raises. -/
def chunks (l : List K) (n : ℕ) : Option (List (List K)) :=
  if n = 0 then none else some ((rangeStep l.length n).map fun i => (l.drop i).take n)

/-- What becomes of a get. -/
inductive Got where
  | found
  | memcachedError
  /-- Any other exception, such as `EOFError` or `socket.error`. -/
  | raised
deriving DecidableEq, Repr

/-- The loop over the keys that are left: the gets it makes, and the keys that are not verified; `none` when an
    exception leaves it. -/
def attempt (answer : K → Got) : List K → List (K × Got) × Option (List K)
  | [] => ([], some [])
  | key :: keys =>
      match answer key with
      | .raised => ([(key, .raised)], none)
      | .found =>
          let (gets, keysNotVerified) := attempt answer keys
          ((key, .found) :: gets, keysNotVerified)
      | .memcachedError =>
          let (gets, keysNotVerified) := attempt answer keys
          ((key, .memcachedError) :: gets, keysNotVerified.map (key :: ·))

/-- The loop of `keys_exist_or_assert` over the attempts from `retry` on. `answers retry key` is what becomes of the
    get for the key then. -/
def verify (answers : ℕ → K → Got) : ℕ → ℕ → List K → List (K × Got) × Option (List K)
  | 0, _, keysLeft => ([], some keysLeft)
  | turns + 1, retry, keysLeft =>
      if keysLeft = [] then ([], some keysLeft)
      else
        match attempt (answers retry) keysLeft with
        | (gets, none) => (gets, none)
        | (gets, some keysNotVerified) =>
            let (later, keysLeft) := verify answers turns (retry + 1) keysNotVerified
            (gets ++ later, keysLeft)

/-- `keys_exist_or_assert` with a queue and no test: what it puts into the queue. `connects` is whether
    `proxy_client` gives it a client. -/
def keysExistOrAssert (connects : Bool) (answers : ℕ → K → Got) (keys : List K) : List Bool :=
  if connects then
    match (verify answers 5 1 keys).2 with
    | none => []
    -- after the failure it goes on to the end
    | some keysLeft => (if keysLeft.length > 0 then [false] else []) ++ [true]
  else []

/-- A thread with what `keys_chunk.get(i)` returns; `None` has no keys to copy, and it puts nothing. -/
def verificationThread (connects : Bool) (answers : ℕ → K → Got) : Option (List K) → List Bool
  | some keys => keysExistOrAssert connects answers keys
  | none => []

/-- The loop over the queue. -/
def drain : List Bool → Bool
  | [] => true
  | item :: queue => if item = false then false else drain queue

/-- `keys_exist_or_assert_in_parallel` returns this, for some order of what the threads put. -/
def Returns (connects : ℕ → Bool) (answers : ℕ → K → Got) (keys : List K) (concurrency : ℕ) (result : Bool) : Prop :=
  ∃ keysChunk queue, chunks keys (keys.length / concurrency) = some keysChunk ∧
    queue.Perm ((List.range concurrency).flatMap fun i =>
      verificationThread (connects i) answers keysChunk[i]?) ∧
    drain queue = result

/-- The keys that thread `i` gets. -/
def handed (keys : List K) (concurrency i : ℕ) : List K :=
  (((chunks keys (keys.length / concurrency)).bind fun keysChunk => keysChunk[i]?).getD [])

/-- The gets that thread `i` makes. -/
def gets (connects : ℕ → Bool) (answers : ℕ → K → Got) (keys : List K) (concurrency i : ℕ) : List (K × Got) :=
  if connects i then (verify answers 5 1 (handed keys concurrency i)).1 else []

/-- The keys of a list, each with its place, by which the answers are told apart. -/
abbrev places (keys : List K) : List (K × ℕ) := keys.zipIdx

/-- The call returns, every key is checked by exactly one of the threads, and the result is whether all are found. -/
structure Right (connects : ℕ → Bool) (answers : ℕ → K × ℕ → Got) (keys : List K) (concurrency : ℕ) : Prop where
  returns : ∃ result, Returns connects answers (places keys) concurrency result
  once : ∀ key ∈ places keys, ∃! i, i < concurrency ∧
    ∃ got, (key, got) ∈ gets connects answers (places keys) concurrency i
  verdict : ∀ result, Returns connects answers (places keys) concurrency result →
    (result = true ↔ ∀ key ∈ places keys, ∃ i < concurrency,
      (key, .found) ∈ gets connects answers (places keys) concurrency i)

/-! ## When the call is right -/

/-- Up to the attempts given, the first answer for the key that is no `MemcachedError`. -/
def FirstIs (answers : ℕ → K → Got) (retry turns : ℕ) (key : K) (got : Got) : Prop :=
  ∃ r, retry ≤ r ∧ r < retry + turns ∧ answers r key = got ∧
    ∀ r', retry ≤ r' → r' < r → answers r' key = .memcachedError

/-- A get for the key raises before the key is found. -/
def Raises (answers : ℕ → K → Got) (key : K) : Prop := FirstIs answers 1 5 key .raised

/-- All attempts for the key end with a `MemcachedError`. -/
def Missed (answers : ℕ → K → Got) (key : K) : Prop := ∀ r, 1 ≤ r → r < 6 → answers r key = .memcachedError

/-- Every thread gets a client and comes to all of its keys: the first attempt for a key that is not its last one does
    not raise. -/
def ComesToAll (connects : ℕ → Bool) (answers : ℕ → K × ℕ → Got) (keys : List K) (concurrency : ℕ) : Prop :=
  ∀ i < concurrency, connects i = true ∧ ∀ key ∈ (handed (places keys) concurrency i).dropLast, answers 1 key ≠ .raised

/-- No thread is ended by an exception, or one that is not misses a key. -/
def Tells (answers : ℕ → K × ℕ → Got) (keys : List K) (concurrency : ℕ) : Prop :=
  (∀ key ∈ places keys, ¬ Raises answers key) ∨
    ∃ i < concurrency, (∀ key ∈ handed (places keys) concurrency i, ¬ Raises answers key) ∧
      ∃ key ∈ handed (places keys) concurrency i, Missed answers key

/-! ## An attempt -/

section Attempt

variable {answer : K → Got} {keys : List K} {key : K} {got : Got}

theorem attempt_snd_eq (answer : K → Got) (keys : List K) :
    ((∃ key ∈ keys, answer key = .raised) ∧ (attempt answer keys).2 = none) ∨
      ((∀ key ∈ keys, answer key ≠ .raised) ∧
        (attempt answer keys).2 = some (keys.filter fun key => answer key = .memcachedError)) := by
  induction keys with
  | nil => exact .inr ⟨by simp, rfl⟩
  | cons key keys ih =>
      rw [attempt]
      rcases hanswer : answer key with _ | _ | _
      · rcases ih with ⟨⟨other, hother, hraised⟩, hnone⟩ | ⟨hnot, hsome⟩
        · exact .inl ⟨⟨other, List.mem_cons_of_mem _ hother, hraised⟩, hnone⟩
        · exact .inr ⟨List.forall_mem_cons.2 ⟨by simp [hanswer], hnot⟩, by simp [hanswer, hsome]⟩
      · rcases ih with ⟨⟨other, hother, hraised⟩, hnone⟩ | ⟨hnot, hsome⟩
        · exact .inl ⟨⟨other, List.mem_cons_of_mem _ hother, hraised⟩, by simp [hnone]⟩
        · exact .inr ⟨List.forall_mem_cons.2 ⟨by simp [hanswer], hnot⟩, by simp [hanswer, hsome]⟩
      · exact .inl ⟨⟨key, List.mem_cons_self, hanswer⟩, rfl⟩

/-- A get is one for a key that is left. -/
theorem mem_attempt (h : (key, got) ∈ (attempt answer keys).1) : key ∈ keys ∧ answer key = got := by
  induction keys with
  | nil => cases h
  | cons first keys ih =>
      rw [attempt] at h
      rcases hanswer : answer first with _ | _ | _ <;> rw [hanswer] at h <;> dsimp only at h
      · rcases List.mem_cons.1 h with heq | h
        · obtain ⟨rfl, rfl⟩ := Prod.mk.inj heq
          exact ⟨List.mem_cons_self, hanswer⟩
        · exact ⟨List.mem_cons_of_mem _ (ih h).1, (ih h).2⟩
      · rcases List.mem_cons.1 h with heq | h
        · obtain ⟨rfl, rfl⟩ := Prod.mk.inj heq
          exact ⟨List.mem_cons_self, hanswer⟩
        · exact ⟨List.mem_cons_of_mem _ (ih h).1, (ih h).2⟩
      · obtain ⟨rfl, rfl⟩ := Prod.mk.inj (List.mem_singleton.1 h)
        exact ⟨List.mem_cons_self, hanswer⟩

/-- Without an exception it makes a get for every key. -/
theorem mem_attempt_of_not_raised (h : ∀ key ∈ keys, answer key ≠ .raised) (hkey : key ∈ keys) :
    (key, answer key) ∈ (attempt answer keys).1 := by
  induction keys with
  | nil => cases hkey
  | cons first keys ih =>
      obtain ⟨hfirst, hrest⟩ := List.forall_mem_cons.1 h
      have hgets : (attempt answer (first :: keys)).1 = (first, answer first) :: (attempt answer keys).1 := by
        rw [attempt]
        rcases hanswer : answer first with _ | _ | _
        · rfl
        · rfl
        · exact absurd hanswer hfirst
      rw [hgets, List.mem_cons]
      rcases List.mem_cons.1 hkey with rfl | hkey
      · exact .inl rfl
      · exact .inr (ih hrest hkey)

/-- It comes to the last key exactly if no get for an earlier one raises. -/
theorem forall_mem_attempt_iff (hnodup : keys.Nodup) :
    (∀ key ∈ keys, (key, answer key) ∈ (attempt answer keys).1) ↔ ∀ key ∈ keys.dropLast, answer key ≠ .raised := by
  induction keys with
  | nil => simp
  | cons first keys ih =>
      obtain ⟨hfresh, hnodup⟩ := List.nodup_cons.1 hnodup
      rcases keys with _ | ⟨second, rest⟩
      · rcases hanswer : answer first with _ | _ | _ <;> simp [attempt, hanswer]
      · rw [List.dropLast_cons_cons, List.forall_mem_cons (p := fun key => answer key ≠ .raised)]
        by_cases hraised : answer first = .raised
        · refine iff_of_false (fun h => ?_) fun h => h.1 hraised
          have hsecond := h second (List.mem_cons_of_mem _ List.mem_cons_self)
          rw [attempt, hraised] at hsecond
          have heq : second = first := (Prod.mk.inj (List.mem_singleton.1 hsecond)).1
          exact hfresh (heq ▸ List.mem_cons_self)
        · have hgets : (attempt answer (first :: second :: rest)).1
              = (first, answer first) :: (attempt answer (second :: rest)).1 := by
            rw [attempt]
            rcases hanswer : answer first with _ | _ | _
            · rfl
            · rfl
            · exact absurd hanswer hraised
          rw [hgets, ← ih hnodup, List.forall_mem_cons]
          constructor
          · rintro ⟨-, h⟩
            refine ⟨hraised, fun key hkey => ?_⟩
            rcases List.mem_cons.1 (h key hkey) with heq | hmem
            · exact absurd ((Prod.mk.inj heq).1 ▸ hkey) hfresh
            · exact hmem
          · rintro ⟨-, h⟩
            exact ⟨List.mem_cons_self, fun key hkey => List.mem_cons_of_mem _ (h key hkey)⟩

end Attempt

/-! ## A thread -/

section Verify

variable {answers : ℕ → K → Got} {turns retry : ℕ} {keys : List K} {key : K} {got : Got}

theorem firstIs_succ_iff : FirstIs answers retry (turns + 1) key got ↔
    answers retry key = got ∨ answers retry key = .memcachedError ∧ FirstIs answers (retry + 1) turns key got := by
  constructor
  · rintro ⟨r, hlow, hhigh, hgot, hearlier⟩
    rcases Nat.eq_or_lt_of_le hlow with rfl | hlt
    · exact .inl hgot
    · exact .inr ⟨hearlier retry (Nat.le_refl _) hlt, r, hlt, by omega, hgot,
        fun r' hlow' hr' => hearlier r' (by omega) hr'⟩
  · rintro (hgot | ⟨hfirst, r, hlow, hhigh, hgot, hearlier⟩)
    · exact ⟨retry, Nat.le_refl _, by omega, hgot, fun r' hlow' hr' => by omega⟩
    · refine ⟨r, by omega, by omega, hgot, fun r' hlow' hr' => ?_⟩
      rcases Nat.eq_or_lt_of_le hlow' with rfl | hlt
      · exact hfirst
      · exact hearlier r' hlt hr'

theorem not_firstIs_zero : ¬ FirstIs answers retry 0 key got := by
  rintro ⟨r, hlow, hhigh, -⟩
  omega

/-- One answer is the first. -/
theorem FirstIs.unique {got' : Got} (h : FirstIs answers retry turns key got) (hgot : got ≠ .memcachedError)
    (h' : FirstIs answers retry turns key got') (hgot' : got' ≠ .memcachedError) : got = got' := by
  obtain ⟨r, hlow, -, rfl, hearlier⟩ := h
  obtain ⟨r', hlow', -, rfl, hearlier'⟩ := h'
  rcases Nat.lt_trichotomy r r' with hlt | rfl | hlt
  · exact absurd (hearlier' r hlow hlt) hgot
  · rfl
  · exact absurd (hearlier r' hlow' hlt) hgot'

theorem not_firstIs_of_missed (h : ∀ r, retry ≤ r → r < retry + turns → answers r key = .memcachedError)
    (hgot : got ≠ .memcachedError) : ¬ FirstIs answers retry turns key got := by
  rintro ⟨r, hlow, hhigh, rfl, -⟩
  exact hgot (h r hlow hhigh)

/-- A key is found, or missed, or a get for it raises. -/
theorem firstIs_or_missed (answers : ℕ → K → Got) (retry turns : ℕ) (key : K) :
    FirstIs answers retry turns key .found ∨ FirstIs answers retry turns key .raised ∨
      ∀ r, retry ≤ r → r < retry + turns → answers r key = .memcachedError := by
  induction turns generalizing retry with
  | zero => exact .inr (.inr fun r hlow hhigh => by omega)
  | succ turns ih =>
      rw [firstIs_succ_iff, firstIs_succ_iff]
      rcases hanswer : answers retry key with _ | _ | _
      · exact .inl (.inl rfl)
      · rcases ih (retry + 1) with hfound | hraised | hmissed
        · exact .inl (.inr ⟨rfl, hfound⟩)
        · exact .inr (.inl (.inr ⟨rfl, hraised⟩))
        · refine .inr (.inr fun r hlow hhigh => ?_)
          rcases Nat.eq_or_lt_of_le hlow with rfl | hlt
          · exact hanswer
          · exact hmissed r hlt (by omega)
      · exact .inr (.inl (.inl rfl))

/-- Behind an attempt without an exception: what is left, and what is asked of it. -/
theorem verify_succ (answers : ℕ → K → Got) (turns retry : ℕ) (keys : List K) :
    ((∃ key ∈ keys, answers retry key = .raised) ∧
      verify answers (turns + 1) retry keys = ((attempt (answers retry) keys).1, none)) ∨
    ((∀ key ∈ keys, answers retry key ≠ .raised) ∧
      verify answers (turns + 1) retry keys =
        ((attempt (answers retry) keys).1 ++ (verify answers turns (retry + 1)
            (keys.filter fun key => answers retry key = .memcachedError)).1,
          (verify answers turns (retry + 1) (keys.filter fun key => answers retry key = .memcachedError)).2)) := by
  by_cases hnil : keys = []
  · subst hnil
    refine .inr ⟨by simp, ?_⟩
    have hverify : ∀ turns retry, verify answers turns retry ([] : List K) = ([], some []) := by
      intro turns retry
      cases turns <;> simp [verify]
    rw [List.filter_nil, hverify, hverify]
    rfl
  · rw [verify, if_neg hnil]
    rcases attempt_snd_eq (answers retry) keys with ⟨hraised, hnone⟩ | ⟨hnot, hsome⟩
    · have hattempt : attempt (answers retry) keys = ((attempt (answers retry) keys).1, none) := Prod.ext rfl hnone
      rw [hattempt]
      exact .inl ⟨hraised, rfl⟩
    · have hattempt : attempt (answers retry) keys = ((attempt (answers retry) keys).1,
          some (keys.filter fun key => answers retry key = .memcachedError)) := Prod.ext rfl hsome
      rw [hattempt]
      exact .inr ⟨hnot, rfl⟩

/-- An exception leaves the loop exactly if a get for some key raises before the key is found; otherwise the keys that
    are left are those that are missed. -/
theorem verify_snd (answers : ℕ → K → Got) (turns retry : ℕ) (keys : List K) :
    ((∃ key ∈ keys, FirstIs answers retry turns key .raised) ∧ (verify answers turns retry keys).2 = none) ∨
      ((∀ key ∈ keys, ¬ FirstIs answers retry turns key .raised) ∧
        ∃ keysLeft, (verify answers turns retry keys).2 = some keysLeft ∧
          ∀ key, key ∈ keysLeft ↔
            key ∈ keys ∧ ∀ r, retry ≤ r → r < retry + turns → answers r key = .memcachedError) := by
  induction turns generalizing retry keys with
  | zero =>
      exact .inr ⟨fun key _ => not_firstIs_zero, keys, rfl,
        fun key => ⟨fun h => ⟨h, fun r hlow hhigh => by omega⟩, fun h => h.1⟩⟩
  | succ turns ih =>
      simp only [firstIs_succ_iff]
      rcases verify_succ answers turns retry keys with ⟨⟨key, hkey, hraised⟩, heq⟩ | ⟨hnot, heq⟩
      · rw [heq]
        exact .inl ⟨⟨key, hkey, .inl hraised⟩, rfl⟩
      · rw [heq]
        rcases ih (retry + 1) (keys.filter fun key => answers retry key = .memcachedError) with
          ⟨⟨key, hkey, hraised⟩, hnone⟩ | ⟨hlater, keysLeft, hsome, hleft⟩
        · obtain ⟨hkey, herror⟩ := List.mem_filter.1 hkey
          exact .inl ⟨⟨key, hkey, .inr ⟨of_decide_eq_true herror, hraised⟩⟩, hnone⟩
        · refine .inr ⟨?_, keysLeft, hsome, fun key => ?_⟩
          · rintro key hkey (hraised | ⟨herror, hraised⟩)
            · exact hnot key hkey hraised
            · exact hlater key (List.mem_filter.2 ⟨hkey, decide_eq_true herror⟩) hraised
          · rw [hleft, List.mem_filter, and_assoc]
            refine and_congr_right fun _ => ⟨?_, ?_⟩
            · rintro ⟨herror, hrest⟩ r hlow hhigh
              rcases Nat.eq_or_lt_of_le hlow with rfl | hlt
              · exact of_decide_eq_true herror
              · exact hrest r hlt (by omega)
            · intro hall
              exact ⟨decide_eq_true (hall retry (Nat.le_refl _) (by omega)),
                fun r hlow hhigh => hall r (by omega) (by omega)⟩

/-- A get is one for a key that the thread has. -/
theorem mem_keys_of_mem_verify (h : (key, got) ∈ (verify answers turns retry keys).1) : key ∈ keys := by
  induction turns generalizing retry keys with
  | zero => cases h
  | succ turns ih =>
      rcases verify_succ answers turns retry keys with ⟨-, heq⟩ | ⟨-, heq⟩ <;> rw [heq] at h
      · exact (mem_attempt h).1
      · rcases List.mem_append.1 h with h | h
        · exact (mem_attempt h).1
        · exact (List.mem_filter.1 (ih h)).1

/-- A key that is found was found first. -/
theorem firstIs_of_mem_verify (h : (key, .found) ∈ (verify answers turns retry keys).1) :
    FirstIs answers retry turns key .found := by
  induction turns generalizing retry keys with
  | zero => cases h
  | succ turns ih =>
      rw [firstIs_succ_iff]
      rcases verify_succ answers turns retry keys with ⟨-, heq⟩ | ⟨-, heq⟩ <;> rw [heq] at h
      · exact .inl (mem_attempt h).2
      · rcases List.mem_append.1 h with h | h
        · exact .inl (mem_attempt h).2
        · exact .inr ⟨of_decide_eq_true (List.mem_filter.1 (mem_keys_of_mem_verify h)).2, ih h⟩

/-- A thread that no exception ends finds every key that can be found. -/
theorem mem_verify_of_firstIs (hraises : ∀ key ∈ keys, ¬ FirstIs answers retry turns key .raised) (hkey : key ∈ keys)
    (h : FirstIs answers retry turns key .found) : (key, .found) ∈ (verify answers turns retry keys).1 := by
  induction turns generalizing retry keys with
  | zero => exact absurd h not_firstIs_zero
  | succ turns ih =>
      simp only [firstIs_succ_iff, not_or, not_and] at hraises
      rcases verify_succ answers turns retry keys with ⟨⟨other, hother, hraised⟩, -⟩ | ⟨hnot, heq⟩
      · exact absurd hraised (hraises other hother).1
      · rw [heq, List.mem_append]
        rcases firstIs_succ_iff.1 h with hfound | ⟨herror, hfound⟩
        · exact .inl (hfound ▸ mem_attempt_of_not_raised hnot hkey)
        · refine .inr (ih ?_ (List.mem_filter.2 ⟨hkey, decide_eq_true herror⟩) hfound)
          intro other hother
          obtain ⟨hmem, herror'⟩ := List.mem_filter.1 hother
          exact (hraises other hmem).2 (of_decide_eq_true herror')

/-- A thread makes a get for each of its keys exactly if the first attempt comes to the last one. -/
theorem forall_mem_verify_iff (hnodup : keys.Nodup) :
    (∀ key ∈ keys, ∃ got, (key, got) ∈ (verify answers (turns + 1) retry keys).1) ↔
      ∀ key ∈ keys.dropLast, answers retry key ≠ .raised := by
  rw [← forall_mem_attempt_iff hnodup]
  rcases verify_succ answers turns retry keys with ⟨-, heq⟩ | ⟨hnot, heq⟩ <;> rw [heq]
  · constructor
    · intro h key hkey
      obtain ⟨got, hgot⟩ := h key hkey
      exact (mem_attempt hgot).2 ▸ hgot
    · exact fun h key hkey => ⟨_, h key hkey⟩
  · refine iff_of_true (fun key hkey => ⟨_, List.mem_append_left _ (mem_attempt_of_not_raised hnot hkey)⟩)
      fun key hkey => mem_attempt_of_not_raised hnot hkey

/-- A thread puts `False` exactly if it has a client, no exception ends it, and it misses a key. -/
theorem false_mem_keysExistOrAssert {connects : Bool} :
    false ∈ keysExistOrAssert connects answers keys ↔
      connects = true ∧ (∀ key ∈ keys, ¬ Raises answers key) ∧ ∃ key ∈ keys, Missed answers key := by
  unfold keysExistOrAssert
  cases connects with
  | false => simp
  | true =>
      rcases verify_snd answers 5 1 keys with ⟨⟨key, hkey, hraised⟩, hnone⟩ | ⟨hnot, keysLeft, hsome, hleft⟩
      · rw [hnone]
        exact iff_of_false List.not_mem_nil fun h => h.2.1 key hkey hraised
      · rw [hsome]
        have hmissed : (∃ key ∈ keys, Missed answers key) ↔ ∃ key, key ∈ keysLeft :=
          exists_congr fun key => (hleft key).symm
        rw [hmissed]
        cases keysLeft with
        | nil => simp
        | cons key rest =>
            refine iff_of_true (by simp) ⟨rfl, hnot, key, List.mem_cons_self⟩

end Verify

/-! ## The queue -/

theorem drain_eq_true_iff (queue : List Bool) : drain queue = true ↔ false ∉ queue := by
  induction queue with
  | nil => simp [drain]
  | cons item queue ih => cases item <;> simp [drain, ih]

/-! ## What a thread gets -/

theorem lt_length_rangeStep_iff {stop step i : ℕ} (hstep : 0 < step) :
    i < (rangeStep stop step).length ↔ i * step < stop := by
  rw [rangeStep, List.length_map, List.length_range, Nat.lt_iff_add_one_le, Nat.le_div_iff_mul_le hstep, Nat.add_mul]
  omega

/-- A slice that starts behind the keys is empty, so the chunks that are missing make no difference. -/
theorem handed_eq (keys : List K) (concurrency i : ℕ) :
    handed keys concurrency i
      = (keys.drop (i * (keys.length / concurrency))).take (keys.length / concurrency) := by
  unfold handed chunks
  split
  · next hzero => rw [hzero, List.take_zero, Option.bind_none, Option.getD_none]
  · next hn =>
      have hpos := Nat.pos_of_ne_zero hn
      rw [Option.bind_some, List.getElem?_map]
      by_cases hi : i < (rangeStep keys.length (keys.length / concurrency)).length
      · rw [List.getElem?_eq_getElem hi, Option.map_some, Option.getD_some]
        simp [rangeStep]
      · rw [List.getElem?_eq_none (Nat.le_of_not_lt hi), Option.map_none, Option.getD_none]
        rw [lt_length_rangeStep_iff hpos, Nat.not_lt] at hi
        rw [List.drop_eq_nil_of_le hi, List.take_nil]

/-- The places of a slice. -/
theorem mem_slice_iff {keys : List K} {start size : ℕ} {key : K × ℕ} :
    key ∈ ((places keys).drop start).take size ↔ key ∈ places keys ∧ start ≤ key.2 ∧ key.2 < start + size := by
  obtain ⟨name, place⟩ := key
  rw [List.mem_iff_getElem?, List.mk_mem_zipIdx_iff_getElem?]
  simp only [List.getElem?_take, List.getElem?_drop, List.getElem?_zipIdx, Nat.zero_add]
  constructor
  · rintro ⟨i, hi⟩
    split at hi
    · next hlt =>
        obtain ⟨found, hfound, heq⟩ := Option.map_eq_some_iff.1 hi
        obtain ⟨rfl, rfl⟩ := Prod.mk.inj heq
        exact ⟨hfound, Nat.le_add_right _ _, Nat.add_lt_add_left hlt _⟩
    · cases hi
  · rintro ⟨hplace, hlow, hhigh⟩
    refine ⟨place - start, ?_⟩
    have hback : start + (place - start) = place := Nat.add_sub_cancel' hlow
    rw [if_pos (by omega), hback, hplace]
    rfl

theorem place_lt_length {keys : List K} {key : K × ℕ} (h : key ∈ places keys) : key.2 < keys.length := by
  obtain ⟨name, place⟩ := key
  exact (List.getElem?_eq_some_iff.1 (List.mk_mem_zipIdx_iff_getElem?.1 h)).1

theorem mem_handed_iff {keys : List K} {concurrency i : ℕ} {key : K × ℕ} :
    key ∈ handed (places keys) concurrency i ↔
      key ∈ places keys ∧ i * (keys.length / concurrency) ≤ key.2 ∧ key.2 < (i + 1) * (keys.length / concurrency) := by
  rw [handed_eq, List.length_zipIdx, mem_slice_iff, Nat.add_mul, Nat.one_mul]

/-- The places of the keys of a thread, each once. -/
theorem nodup_handed (keys : List K) (concurrency i : ℕ) : (handed (places keys) concurrency i).Nodup := by
  have hplaces : (places keys).Nodup :=
    List.Nodup.of_map Prod.snd (by rw [List.zipIdx_map_snd]; exact List.nodup_range')
  rw [handed_eq]
  exact hplaces.sublist ((List.take_sublist ..).trans (List.drop_sublist ..))

/-- A key is handed to one thread at most. -/
theorem handed_unique {keys : List K} {concurrency i j : ℕ} {key : K × ℕ}
    (hi : key ∈ handed (places keys) concurrency i) (hj : key ∈ handed (places keys) concurrency j) : i = j := by
  obtain ⟨-, hlow, hhigh⟩ := mem_handed_iff.1 hi
  obtain ⟨-, hlow', hhigh'⟩ := mem_handed_iff.1 hj
  exact (Nat.div_eq_of_lt_le hlow hhigh).symm.trans (Nat.div_eq_of_lt_le hlow' hhigh')

/-! ## The call -/

section Call

variable {connects : ℕ → Bool}

theorem exists_returns_iff {answers : ℕ → K → Got} {keys : List K} {concurrency : ℕ} :
    (∃ result, Returns connects answers keys concurrency result) ↔ keys.length / concurrency ≠ 0 := by
  constructor
  · rintro ⟨result, keysChunk, queue, hchunks, -⟩ hzero
    rw [chunks, if_pos hzero] at hchunks
    cases hchunks
  · intro hn
    exact ⟨_, _, _, if_neg hn, List.Perm.refl _, rfl⟩

/-- The result is whether no thread puts `False`. -/
theorem Returns.result_iff {answers : ℕ → K → Got} {keys : List K} {concurrency : ℕ} {result : Bool}
    (h : Returns connects answers keys concurrency result) :
    result = true ↔ ∀ i < concurrency, connects i = true →
      (∀ key ∈ handed keys concurrency i, ¬ Raises answers key) →
        ∀ key ∈ handed keys concurrency i, ¬ Missed answers key := by
  obtain ⟨keysChunk, queue, hchunks, hqueue, rfl⟩ := h
  rw [drain_eq_true_iff, hqueue.mem_iff, List.mem_flatMap, not_exists]
  refine forall_congr' fun i => ?_
  rw [List.mem_range, not_and]
  refine forall_congr' fun _ => ?_
  rw [handed, hchunks, Option.bind_some]
  cases keysChunk[i]? with
  | none => simp [verificationThread]
  | some chunk =>
      rw [verificationThread, false_mem_keysExistOrAssert, Option.getD_some, not_and, not_and, not_exists]
      simp only [not_and]

/-- A thread makes gets for the keys it gets. -/
theorem mem_handed_of_mem_gets {answers : ℕ → K → Got} {keys : List K} {concurrency i : ℕ} {key : K} {got : Got}
    (h : (key, got) ∈ gets connects answers keys concurrency i) : key ∈ handed keys concurrency i := by
  unfold gets at h
  split at h
  · exact mem_keys_of_mem_verify h
  · cases h

theorem firstIs_of_mem_gets {answers : ℕ → K → Got} {keys : List K} {concurrency i : ℕ} {key : K}
    (h : (key, .found) ∈ gets connects answers keys concurrency i) : FirstIs answers 1 5 key .found := by
  unfold gets at h
  split at h
  · exact firstIs_of_mem_verify h
  · cases h

/-- Where the threads do not divide the number of keys, the first key behind the last chunk is handed to none. -/
theorem exists_not_handed {keys : List K} {concurrency : ℕ} (hdvd : ¬ concurrency ∣ keys.length) :
    ∃ key ∈ places keys, ∀ i < concurrency, key ∉ handed (places keys) concurrency i := by
  have hmost : keys.length / concurrency * concurrency ≤ keys.length := Nat.div_mul_le_self ..
  have hlt : keys.length / concurrency * concurrency < keys.length :=
    Nat.lt_of_le_of_ne hmost fun heq => hdvd ⟨keys.length / concurrency, by rw [Nat.mul_comm, heq]⟩
  refine ⟨(keys[keys.length / concurrency * concurrency], keys.length / concurrency * concurrency),
    List.mk_mem_zipIdx_iff_getElem?.2 (List.getElem?_eq_getElem hlt), fun i hi hhanded => ?_⟩
  have hhigh := (mem_handed_iff.1 hhanded).2.2
  have hend : (i + 1) * (keys.length / concurrency) ≤ keys.length / concurrency * concurrency := by
    rw [Nat.mul_comm]
    exact Nat.mul_le_mul_left _ hi
  exact absurd (Nat.lt_of_lt_of_le hhigh hend) (Nat.lt_irrefl _)

/-- Where they do, each key is handed to the thread of its chunk. -/
theorem mem_handed_own {keys : List K} {concurrency : ℕ} (hpos : 0 < keys.length / concurrency)
    (hdvd : concurrency ∣ keys.length) {key : K × ℕ} (hkey : key ∈ places keys) :
    key.2 / (keys.length / concurrency) < concurrency ∧
      key ∈ handed (places keys) concurrency (key.2 / (keys.length / concurrency)) := by
  constructor
  · have hlength : keys.length / concurrency * concurrency = keys.length := Nat.div_mul_cancel hdvd
    have hplace := place_lt_length hkey
    exact Nat.div_lt_of_lt_mul (by rwa [hlength])
  · refine mem_handed_iff.2 ⟨hkey, Nat.div_mul_le_self .., ?_⟩
    rw [Nat.add_mul, Nat.one_mul]
    exact Nat.lt_div_mul_add hpos

/-- Where the threads divide the number of keys, each of them gets some. -/
theorem handed_ne_nil {keys : List K} {concurrency i : ℕ} (hpos : 0 < keys.length / concurrency)
    (hi : i < concurrency) : handed (places keys) concurrency i ≠ [] := by
  have hlt : i * (keys.length / concurrency) < keys.length :=
    Nat.lt_of_lt_of_le (Nat.mul_lt_mul_of_pos_right hi hpos) (Nat.mul_div_le ..)
  refine List.ne_nil_of_mem (a := (keys[i * (keys.length / concurrency)], i * (keys.length / concurrency))) ?_
  refine mem_handed_iff.2 ⟨List.mk_mem_zipIdx_iff_getElem?.2 (List.getElem?_eq_getElem hlt), Nat.le_refl _, ?_⟩
  rw [Nat.add_mul, Nat.one_mul]
  exact Nat.lt_add_of_pos_right hpos

/-- Each key is checked by one thread exactly if the threads come to all of their keys. -/
theorem once_iff {answers : ℕ → K × ℕ → Got} {keys : List K} {concurrency : ℕ}
    (hpos : 0 < keys.length / concurrency) (hdvd : concurrency ∣ keys.length) :
    (∀ key ∈ places keys, ∃! i, i < concurrency ∧
        ∃ got, (key, got) ∈ gets connects answers (places keys) concurrency i) ↔
      ComesToAll connects answers keys concurrency := by
  have hiff : ∀ i, connects i = true →
      ((∀ key ∈ handed (places keys) concurrency i,
          ∃ got, (key, got) ∈ gets connects answers (places keys) concurrency i) ↔
        ∀ key ∈ (handed (places keys) concurrency i).dropLast, answers 1 key ≠ .raised) := by
    intro i hconnects
    rw [gets, if_pos hconnects]
    exact forall_mem_verify_iff (nodup_handed keys concurrency i)
  constructor
  · intro h i hi
    have hall : ∀ key ∈ handed (places keys) concurrency i,
        ∃ got, (key, got) ∈ gets connects answers (places keys) concurrency i := by
      intro key hkey
      obtain ⟨j, ⟨-, got, hgot⟩, -⟩ := h key (mem_handed_iff.1 hkey).1
      rw [handed_unique hkey (mem_handed_of_mem_gets hgot)]
      exact ⟨got, hgot⟩
    obtain ⟨key, hkey⟩ := List.exists_mem_of_ne_nil _ (handed_ne_nil hpos hi)
    obtain ⟨got, hgot⟩ := hall key hkey
    have hconnects : connects i = true := by
      unfold gets at hgot
      split at hgot
      · assumption
      · cases hgot
    exact ⟨hconnects, (hiff i hconnects).1 hall⟩
  · intro h key hkey
    obtain ⟨hthread, hown⟩ := mem_handed_own hpos hdvd hkey
    obtain ⟨hconnects, hlast⟩ := h _ hthread
    refine ⟨_, ⟨hthread, (hiff _ hconnects).2 hlast key hown⟩, fun i hi => ?_⟩
    obtain ⟨-, got, hgot⟩ := hi
    exact handed_unique (mem_handed_of_mem_gets hgot) hown

/-- The result tells whether all keys are found, where the threads come to all of them. -/
theorem verdict_iff {answers : ℕ → K × ℕ → Got} {keys : List K} {concurrency : ℕ}
    (hpos : 0 < keys.length / concurrency) (hdvd : concurrency ∣ keys.length)
    (hall : ComesToAll connects answers keys concurrency) :
    (∀ result, Returns connects answers (places keys) concurrency result →
      (result = true ↔ ∀ key ∈ places keys, ∃ i < concurrency,
        (key, .found) ∈ gets connects answers (places keys) concurrency i)) ↔ Tells answers keys concurrency := by
  have hne : (places keys).length / concurrency ≠ 0 := by
    rw [List.length_zipIdx]
    exact Nat.ne_of_gt hpos
  constructor
  · intro h
    by_contra htells
    obtain ⟨hsome, hnone⟩ := not_or.1 htells
    have hexists : ∃ result, Returns connects answers (places keys) concurrency result := exists_returns_iff.2 hne
    obtain ⟨result, hreturns⟩ := hexists
    -- no thread puts `False`, and a key for which a get raises is not found
    have htrue : result = true := by
      rw [hreturns.result_iff]
      exact fun i hi _ hraises key hkey hmissed => hnone ⟨i, hi, hraises, key, hkey, hmissed⟩
    refine hsome fun key hkey hraises => ?_
    obtain ⟨i, -, hfound⟩ := (h result hreturns).1 htrue key hkey
    cases (firstIs_of_mem_gets hfound).unique (by decide) hraises (by decide)
  · intro htells result hreturns
    rw [hreturns.result_iff]
    constructor
    · intro hquiet key hkey
      have hnone : ∀ key ∈ places keys, ¬ Raises answers key := by
        rcases htells with hnone | ⟨i, hi, hraises, missed, hmissed, hmisses⟩
        · exact hnone
        · exact absurd hmisses (hquiet i hi (hall i hi).1 hraises missed hmissed)
      obtain ⟨hthread, hown⟩ := mem_handed_own hpos hdvd hkey
      have hraises : ∀ other ∈ handed (places keys) concurrency (key.2 / (keys.length / concurrency)),
          ¬ Raises answers other := fun other hother => hnone other (mem_handed_iff.1 hother).1
      obtain ⟨hconnects, -⟩ := hall _ hthread
      refine ⟨_, hthread, ?_⟩
      rw [gets, if_pos hconnects]
      rcases firstIs_or_missed answers 1 5 key with hfound | hraised | hmissed
      · exact mem_verify_of_firstIs hraises hown hfound
      · exact absurd hraised (hnone key hkey)
      · exact absurd hmissed (hquiet _ hthread hconnects hraises key hown)
    · intro hfound i _ _ _ key hkey hmissed
      obtain ⟨j, -, hgot⟩ := hfound key (mem_handed_iff.1 hkey).1
      have hmissed : ∀ r, 1 ≤ r → r < 1 + 5 → answers r key = .memcachedError := hmissed
      exact not_firstIs_of_missed hmissed (by decide) (firstIs_of_mem_gets hgot)

/-- **When no key is missed**: for any number of threads and whatever becomes of the clients and the gets, every key is
    checked by exactly one thread and the result is whether all are found, exactly if there is a key, the threads
    divide their number, each of them comes to all of its keys, and no exception ends a thread unless another one
    misses a key. -/
theorem keysExist_right_iff {concurrency : ℕ} (hconcurrency : 1 ≤ concurrency) (keys : List K) (connects : ℕ → Bool)
    (answers : ℕ → K × ℕ → Got) :
    Right connects answers keys concurrency ↔ keys ≠ [] ∧ concurrency ∣ keys.length ∧
      ComesToAll connects answers keys concurrency ∧ Tells answers keys concurrency := by
  constructor
  · intro h
    have hne : keys ≠ [] := by
      rintro rfl
      exact exists_returns_iff.1 h.returns (Nat.zero_div _)
    have hdvd : concurrency ∣ keys.length := by
      by_contra hdvd
      obtain ⟨key, hkey, hmissed⟩ := exists_not_handed hdvd
      obtain ⟨i, ⟨hi, got, hgot⟩, -⟩ := h.once key hkey
      exact hmissed i hi (mem_handed_of_mem_gets hgot)
    have hpos : 0 < keys.length / concurrency :=
      Nat.div_pos (Nat.le_of_dvd (List.length_pos_of_ne_nil hne) hdvd) hconcurrency
    have hall := (once_iff hpos hdvd).1 h.once
    exact ⟨hne, hdvd, hall, (verdict_iff hpos hdvd hall).1 h.verdict⟩
  · intro ⟨hne, hdvd, hall, htells⟩
    have hpos : 0 < keys.length / concurrency :=
      Nat.div_pos (Nat.le_of_dvd (List.length_pos_of_ne_nil hne) hdvd) hconcurrency
    refine ⟨exists_returns_iff.2 ?_, (once_iff hpos hdvd).2 hall, (verdict_iff hpos hdvd hall).2 htells⟩
    rw [List.length_zipIdx]
    exact Nat.ne_of_gt hpos

end Call

/-- Four keys and two threads, the last key found at the third attempt. -/
def slowAnswers (retry : ℕ) (key : String × ℕ) : Got :=
  if key.2 = 3 ∧ retry < 3 then .memcachedError else .found

theorem keysExist_right_sample : Right (fun _ => true) slowAnswers ["a", "b", "c", "d"] 2 := by
  refine (keysExist_right_iff (by decide) _ _ _).2 ⟨by decide, by decide, ?_, .inl ?_⟩
  · unfold ComesToAll
    decide
  · rintro key - ⟨r, -, -, hraised, -⟩
    unfold slowAnswers at hraised
    split at hraised <;> cases hraised

/-- One key is too few for two threads; of three keys the last one is not looked for; and of two keys the one whose
    get raises is not found, and is not missed. -/
theorem keysExist_wrong : ¬ Right (fun _ => true) (fun _ _ => .found) ["a"] 2 ∧
    ¬ Right (fun _ => true) (fun _ key => if key.2 < 2 then .found else .memcachedError) ["a", "b", "c"] 2 ∧
    ¬ Right (fun _ => true) (fun _ key => if key.2 = 0 then .raised else .found) ["a", "b"] 2 := by
  refine ⟨fun h => ?_, fun h => ?_, fun h => ?_⟩
  · exact exists_returns_iff.1 h.returns (by decide)
  · obtain ⟨key, hkey, hmissed⟩ := exists_not_handed (show ¬ 2 ∣ ["a", "b", "c"].length by decide)
    obtain ⟨i, ⟨hi, got, hgot⟩, -⟩ := h.once key hkey
    exact hmissed i hi (mem_handed_of_mem_gets hgot)
  · have hall := (once_iff (by decide) (by decide)).1 h.once
    rcases (verdict_iff (by decide) (by decide) hall).1 h.verdict with hnone | ⟨-, -, -, key, -, hmissed⟩
    · exact hnone ("a", 0) (by decide) ⟨1, by decide, by decide, rfl, fun r hlow hhigh => absurd hlow (by omega)⟩
    · have hfirst := hmissed 1 (by decide) (by decide)
      dsimp only at hfirst
      split at hfirst <;> cases hfirst

end TestInfra.BucketHelper
