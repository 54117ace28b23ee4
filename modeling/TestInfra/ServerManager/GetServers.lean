import Mathlib.Data.List.Sort
import TestInfra.Lib.Dict

set_option autoImplicit false

/-! # Servers from the pool

`ServerManager.get_servers` books servers in a transaction. The closure that it hands to the transaction
runner may be run several times, on the pool as it then is, and only the replacements of the last run
are committed; but the list of addresses that it appends to belongs to `get_servers` and **survives a
rollback**. What the runner does is an input here (`Attempt`): any number of attempts, each of which can
fail anywhere. -/

namespace TestInfra

namespace ServerManager

/-- `poolId` of a document: a text, an array of texts, or neither. -/
inductive PoolId where
  | one (id : String)
  | many (ids : List String)
  | other

/-- `poolId='{pool_id}' OR '{pool_id}' IN poolId`. -/
def PoolId.has (id : String) : PoolId → Bool
  | .one id' => id' = id
  | .many ids => ids.contains id
  | .other => false

/-- A document of `QE-server-pool`; `none` is a field that is missing. -/
structure Server where
  ipaddr : Option String
  state : Option String
  os : Option String
  poolId : PoolId
  /-- `to_number(memory)`, `none` for `NULL`. -/
  memory : Option Int
  username : Option String
  prevUser : Option String

/-- The documents of the pool, by `meta().id`. -/
abbrev Pool := Dict String Server

/-- The arguments of `get_servers` that it uses. -/
structure Request where
  username : String
  count : Int
  osType : String
  poolId : String

/-- The `WHERE` clause of both queries. -/
def Server.available (req : Request) (d : Server) : Bool :=
  d.state = some "available" && d.os = some req.osType && d.poolId.has req.poolId

/-- `ORDER BY to_number(memory) ASC`; `NULL` comes first. -/
def memoryLe (d e : String × Server) : Prop :=
  match d.2.memory, e.2.memory with
  | none, _ => True
  | some _, none => False
  | some m, some m' => m ≤ m'

instance : DecidableRel memoryLe := fun d e =>
  match hd : d.2.memory, he : e.2.memory with
  | none, _ => isTrue (by rw [memoryLe, hd]; trivial)
  | some _, none => isFalse (by rw [memoryLe, hd, he]; exact id)
  | some m, some m' => decidable_of_iff (m ≤ m') (by rw [memoryLe, hd, he])

/-- The answer to the first query, `count(*)`. -/
def availableCount (req : Request) (pool : Pool) : ℕ :=
  (pool.items.filter fun d => d.2.available req).length

/-- The rows of the second query, with `LIMIT {count}`. -/
def serverRows (req : Request) (pool : Pool) : List (String × Server) :=
  ((pool.items.filter fun d => d.2.available req).insertionSort memoryLe).take req.count.toNat

/-- The document that `ctx.replace` writes. -/
def book (username : String) (d : Server) : Server :=
  ⟨d.ipaddr, some "booked", d.os, d.poolId, d.memory, some username, some (d.username.getD "")⟩

/-- The loop over the rows: the addresses appended to `server_list`, the documents replaced, and whether
    the loop came to its end. `failsAt` is the number of the row at which `ctx.get` or `ctx.replace`
    raises. -/
def bookRows (username : String) :
    Option ℕ → List (String × Server) → List String × List (String × Server) × Bool
  | _, [] => ([], [], true)
  | some 0, _ :: _ => ([], [], false)
  | failsAt, row :: rest =>
      match row.2.ipaddr with
      -- `doc_data['ipaddr']` raises `KeyError`, after the replacement
      | none => ([], [(row.1, book username row.2)], false)
      | some ip =>
          let (ips, docs, done) := bookRows username (failsAt.map (· - 1)) rest
          (ip :: ips, (row.1, book username row.2) :: docs, done)

/-- What an attempt meets. -/
structure Attempt where
  /-- The pool at the time. -/
  pool : Pool
  /-- One of the two queries raises. -/
  queryFails : Bool
  failsAt : Option ℕ
  /-- The transaction is rolled back after the closure has returned. -/
  commitFails : Bool

/-- One run of `allocate_servers` and what the runner makes of it: the addresses appended, and the
    documents committed, if any are. -/
def allocateServers (req : Request) (a : Attempt) : List String × Option (List (String × Server)) :=
  if a.queryFails then ([], none)
  else if req.count > availableCount req a.pool then ([], if a.commitFails then none else some [])
  else
    let (ips, docs, done) := bookRows req.username a.failsAt (serverRows req a.pool)
    (ips, if done && !a.commitFails then some docs else none)

/-- `transactions.run(allocate_servers)`: attempts until one is committed; `none` when the runner gives
    up and raises. The list is `server_list`. -/
def runTransaction (req : Request) :
    List Attempt → List String → List String × Option (List (String × Server))
  | [], serverList => (serverList, none)
  | a :: rest, serverList =>
      match allocateServers req a with
      | (ips, some docs) => (serverList ++ ips, some docs)
      | (ips, none) => runTransaction req rest (serverList ++ ips)

/-- `get_servers`. -/
def getServers (req : Request) (attempts : List Attempt) : List String :=
  match runTransaction req attempts [] with
  | (serverList, some _) => serverList
  | (_, none) => []

/-- The documents that `get_servers` leaves changed in the pool. -/
def bookedServers (req : Request) (attempts : List Attempt) : List (String × Server) :=
  ((runTransaction req attempts []).2).getD []

/-! ## One attempt -/

/-- Every row has an address, and neither `ctx.get` nor `ctx.replace` raises. -/
def Attempt.booksAll (req : Request) (a : Attempt) : Bool :=
  (serverRows req a.pool).all (fun d => d.2.ipaddr.isSome) &&
    a.failsAt.all fun k => (serverRows req a.pool).length ≤ k

/-- The attempt is committed. -/
def Attempt.commits (req : Request) (a : Attempt) : Bool :=
  !a.queryFails && !a.commitFails &&
    (decide (req.count > availableCount req a.pool) || a.booksAll req)

/-- The attempt appends no address: it does not get to the loop, there is no row, or the first row
    fails. -/
def Attempt.quiet (req : Request) (a : Attempt) : Bool :=
  a.queryFails || decide (req.count > availableCount req a.pool) || a.failsAt = some 0 ||
    (serverRows req a.pool).head?.all fun d => d.2.ipaddr.isNone

/-- The loop comes to its end when every row has an address and no row fails. -/
theorem bookRows_done (username : String) (failsAt : Option ℕ) (rows : List (String × Server)) :
    (bookRows username failsAt rows).2.2
      = (rows.all (fun d => d.2.ipaddr.isSome) && failsAt.all fun k => rows.length ≤ k) := by
  induction rows generalizing failsAt with
  | nil => cases failsAt <;> simp [bookRows]
  | cons row rest ih =>
      rcases failsAt with _ | _ | k
      · cases hip : row.2.ipaddr <;> simp [bookRows, hip, ih]
      · simp [bookRows]
      · cases hip : row.2.ipaddr <;> simp [bookRows, hip, ih]

/-- One round of the loop. -/
theorem bookRows_cons (username : String) {failsAt : Option ℕ} (h : failsAt ≠ some 0)
    (row : String × Server) (rest : List (String × Server)) :
    bookRows username failsAt (row :: rest) =
      match row.2.ipaddr with
      | none => ([], [(row.1, book username row.2)], false)
      | some ip =>
          let (ips, docs, done) := bookRows username (failsAt.map (· - 1)) rest
          (ip :: ips, (row.1, book username row.2) :: docs, done) := by
  rcases failsAt with _ | _ | k
  · rfl
  · exact absurd rfl h
  · rfl

/-- At its end the loop has booked every row and appended its address. -/
theorem bookRows_of_done {username : String} {failsAt : Option ℕ} {rows : List (String × Server)}
    (hdone : (bookRows username failsAt rows).2.2 = true) :
    (bookRows username failsAt rows).1.map some = rows.map (fun d => d.2.ipaddr) ∧
      (bookRows username failsAt rows).2.1 = rows.map fun d => (d.1, book username d.2) := by
  induction rows generalizing failsAt with
  | nil => cases failsAt <;> exact ⟨rfl, rfl⟩
  | cons row rest ih =>
      by_cases hfails : failsAt = some 0
      · rw [hfails] at hdone
        cases hdone
      rw [bookRows_cons username hfails] at hdone ⊢
      cases hip : row.2.ipaddr with
      | none => simp [hip] at hdone
      | some ip =>
          simp only [hip] at hdone ⊢
          obtain ⟨hips, hdocs⟩ := ih hdone
          exact ⟨by rw [List.map_cons, List.map_cons, hips, hip], by rw [hdocs, List.map_cons]⟩

theorem bookRows_nil_iff (username : String) (failsAt : Option ℕ) (rows : List (String × Server)) :
    (bookRows username failsAt rows).1 = [] ↔
      failsAt = some 0 ∨ (rows.head?.all fun d => d.2.ipaddr.isNone) = true := by
  cases rows with
  | nil => cases failsAt <;> simp [bookRows]
  | cons row rest =>
      rcases failsAt with _ | _ | k
      · cases hip : row.2.ipaddr <;> simp [bookRows, hip]
      · simp [bookRows]
      · cases hip : row.2.ipaddr <;> simp [bookRows, hip]

theorem allocateServers_isSome (req : Request) (a : Attempt) :
    (allocateServers req a).2.isSome = a.commits req := by
  unfold allocateServers Attempt.commits Attempt.booksAll
  rw [← bookRows_done req.username]
  cases a.queryFails <;> cases a.commitFails <;>
    by_cases hcount : req.count > availableCount req a.pool <;> simp [hcount]
  · cases (bookRows req.username a.failsAt (serverRows req a.pool)).2.2 <;> rfl

theorem allocateServers_nil_iff (req : Request) (a : Attempt) :
    (allocateServers req a).1 = [] ↔ a.quiet req = true := by
  unfold allocateServers Attempt.quiet
  cases a.queryFails <;> by_cases hcount : req.count > availableCount req a.pool <;>
    simp [hcount, bookRows_nil_iff]

/-! ## What the caller gets -/

/-- The addresses in `result` are those of the servers that were booked for the user, each once, and
    there are as many as were asked for, or none. -/
structure ReturnsBooked (req : Request) (result : List String) (booked : List (String × Server)) :
    Prop where
  addresses : (result.map some).Perm (booked.map fun d => d.2.ipaddr)
  once : (booked.map Prod.fst).Nodup
  marked : ∀ d ∈ booked, d.2.state = some "booked" ∧ d.2.username = some req.username
  number : (result.length : Int) = req.count ∨ result = []

theorem returnsBooked_nil (req : Request) : ReturnsBooked req [] [] where
  addresses := List.Perm.refl _
  once := List.nodup_nil
  marked _ hd := absurd hd List.not_mem_nil
  number := Or.inr rfl

theorem nodup_serverRows (req : Request) (pool : Pool) :
    ((serverRows req pool).map Prod.fst).Nodup := by
  have hfilter : ((pool.items.filter fun d => d.2.available req).map Prod.fst).Nodup :=
    pool.nodup.sublist (List.filter_sublist.map Prod.fst)
  have hsort := ((List.perm_insertionSort memoryLe _).map Prod.fst).nodup_iff.2 hfilter
  exact hsort.sublist ((List.take_sublist _ _).map Prod.fst)

theorem length_serverRows {req : Request} {pool : Pool}
    (hcount : ¬ req.count > availableCount req pool) :
    (serverRows req pool).length = req.count.toNat := by
  unfold availableCount at hcount
  rw [serverRows, List.length_take, List.length_insertionSort]
  omega

/-- A committed attempt on its own does what it should. -/
theorem returnsBooked_of_commit {req : Request} {a : Attempt} {ips : List String}
    {docs : List (String × Server)} (h : allocateServers req a = (ips, some docs)) :
    ReturnsBooked req ips docs := by
  unfold allocateServers at h
  split at h
  · cases h
  split at h
  · obtain ⟨rfl, hdocs⟩ := Prod.mk.inj h
    split at hdocs
    · cases hdocs
    · obtain rfl := Option.some.inj hdocs
      exact returnsBooked_nil req
  next hcount =>
  obtain ⟨rfl, hdocs⟩ := Prod.mk.inj h
  split at hdocs
  next hdone =>
    rw [Bool.and_eq_true] at hdone
    obtain ⟨hips, hbooked⟩ := bookRows_of_done hdone.1
    obtain rfl := Option.some.inj hdocs
    rw [hbooked]
    refine ⟨?_, ?_, ?_, ?_⟩
    · rw [hips, List.map_map]
      exact List.Perm.refl _
    · rw [List.map_map]
      exact nodup_serverRows req a.pool
    · intro d hd
      obtain ⟨row, -, rfl⟩ := List.mem_map.1 hd
      exact ⟨rfl, rfl⟩
    · have hlen := congrArg List.length hips
      rw [List.length_map, List.length_map, length_serverRows hcount] at hlen
      by_cases hpos : 0 ≤ req.count
      · exact Or.inl (by rw [hlen]; omega)
      · exact Or.inr (List.eq_nil_of_length_eq_zero (by rw [hlen]; omega))
  · cases hdocs

/-- What the attempts that were rolled back have left in `server_list`. -/
def leftOver (req : Request) (attempts : List Attempt) : List String :=
  (attempts.takeWhile fun a => !a.commits req).flatMap fun a => (allocateServers req a).1

/-- The whole run: the addresses of the attempts that were rolled back, then those of the attempt that
    was committed. -/
theorem runTransaction_eq (req : Request) (attempts : List Attempt) (serverList : List String) :
    runTransaction req attempts serverList
      = match attempts.find? fun a => a.commits req with
        | some a => (serverList ++ leftOver req attempts ++ (allocateServers req a).1,
            (allocateServers req a).2)
        | none => (serverList ++ leftOver req attempts, none) := by
  induction attempts generalizing serverList with
  | nil => simp [runTransaction, leftOver]
  | cons a rest ih =>
      have hsome := allocateServers_isSome req a
      rw [runTransaction]
      cases halloc : allocateServers req a with
      | mk ips booked =>
          rw [halloc] at hsome
          cases booked with
          | some docs =>
              have hcommits : a.commits req = true := hsome.symm
              simp [leftOver, hcommits, halloc]
          | none =>
              have hcommits : a.commits req = false := hsome.symm
              have hfind : (a :: rest).find? (fun a => a.commits req)
                  = rest.find? fun a => a.commits req := by simp [hcommits]
              have hleft : leftOver req (a :: rest) = ips ++ leftOver req rest := by
                simp [leftOver, hcommits, halloc]
              simp only [ih, hfind, hleft, List.append_assoc]

theorem leftOver_nil_iff (req : Request) (attempts : List Attempt) :
    leftOver req attempts = [] ↔
      ∀ a ∈ attempts.takeWhile (fun a => !a.commits req), a.quiet req = true := by
  simp only [leftOver, List.flatMap_eq_nil_iff, allocateServers_nil_iff]

/-- **`get_servers` returns the booked servers exactly when** no attempt that was rolled back before the
    committed one had got as far as appending an address. -/
theorem getServers_returnsBooked_iff (req : Request) (attempts : List Attempt) :
    ReturnsBooked req (getServers req attempts) (bookedServers req attempts) ↔
      ((∃ a ∈ attempts, a.commits req = true) →
        ∀ a ∈ attempts.takeWhile (fun a => !a.commits req), a.quiet req = true) := by
  rw [← leftOver_nil_iff]
  unfold getServers bookedServers
  rw [runTransaction_eq]
  cases hfind : attempts.find? fun a => a.commits req with
  | none =>
      have hnone : ¬ ∃ a ∈ attempts, a.commits req = true := by
        rintro ⟨a, ha, hcommits⟩
        exact List.find?_eq_none.1 hfind a ha hcommits
      simp only [Option.getD_none, hnone, false_implies, iff_true]
      exact returnsBooked_nil req
  | some a =>
      have hcommits : a.commits req = true := by simpa using List.find?_some hfind
      have hexists : ∃ a ∈ attempts, a.commits req = true :=
        ⟨a, List.mem_of_find?_eq_some hfind, hcommits⟩
      obtain ⟨docs, hdocs⟩ := Option.isSome_iff_exists.1 ((allocateServers_isSome req a).trans hcommits)
      have hcommit : ReturnsBooked req (allocateServers req a).1 docs :=
        returnsBooked_of_commit (Prod.ext rfl hdocs)
      simp only [List.nil_append, hdocs, Option.getD_some, hexists, forall_const]
      constructor
      · -- one address too many already breaks the count of the addresses
        intro hreturns
        have hlen := hreturns.addresses.length_eq
        have hown := hcommit.addresses.length_eq
        rw [List.length_map, List.length_append] at hlen
        rw [List.length_map] at hown
        exact List.eq_nil_of_length_eq_zero (by omega)
      · intro hnil
        rw [hnil, List.nil_append]
        exact hcommit

/-- A free server of the default pool. -/
def freeServer (ip : String) : Server :=
  ⟨some ip, some "available", some "centos", .one "12hour", some 4096, none, none⟩

/-- The first attempt takes the only free server and loses it to another transaction; by the second one
    that server is booked for somebody else and a new one has come in. -/
def conflictThenCommit : List Attempt :=
  [⟨Dict.empty.set "s1" (freeServer "10.0.0.1"), false, none, true⟩,
    ⟨(Dict.empty.set "s1" (book "somebody" (freeServer "10.0.0.1"))).set "s2" (freeServer "10.0.0.2"),
      false, none, false⟩]

/-- The caller gets two addresses for one server, the first of which belongs to somebody else. -/
theorem getServers_keeps_rolled_back_address :
    getServers ⟨"user", 1, "centos", "12hour"⟩ conflictThenCommit = ["10.0.0.1", "10.0.0.2"] ∧
      (bookedServers ⟨"user", 1, "centos", "12hour"⟩ conflictThenCommit).map Prod.fst = ["s2"] ∧
      ¬ ReturnsBooked ⟨"user", 1, "centos", "12hour"⟩
        (getServers ⟨"user", 1, "centos", "12hour"⟩ conflictThenCommit)
        (bookedServers ⟨"user", 1, "centos", "12hour"⟩ conflictThenCommit) := by
  refine ⟨by decide +kernel, by decide +kernel, ?_⟩
  intro h
  have hlen := h.addresses.length_eq
  revert hlen
  decide +kernel

end ServerManager

end TestInfra
