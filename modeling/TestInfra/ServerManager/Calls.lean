import TestInfra.Lib.Runs
import TestInfra.ServerManager.ReleaseServers

set_option autoImplicit false

/-! # Runs of the server manager

Any number of users call `get_servers`, `release_servers`, `release_ip`, `add_server` and `remove_server` on one
pool, in any order. A call takes effect at one moment: a query at once, and the transaction of `get_servers`
when it is committed, on the pool that its last attempt has read.

`Change` says once what a call can make of a document; all that is proved about runs comes from it. -/

namespace TestInfra

namespace ServerManager

/-- The document that `add_server` stores. What it writes under `OS` is not what the queries read under `os`,
    and the version is read by none. -/
def addedServer (ipaddr : String) : Server :=
  ⟨some ipaddr, some "available", none, .other, none, none, none⟩

/-- `add_server`; `fails` when the SDK raises, which is logged. -/
def addServer (ipaddr : String) (fails : Bool) (pool : Pool) : Pool :=
  if fails then pool else pool.set ipaddr (addedServer ipaddr)

/-- `remove_server`. -/
def removeServer (ipaddr : String) (fails : Bool) (pool : Pool) : Pool :=
  if fails then pool else pool.del ipaddr

/-- A call, with what it meets. -/
inductive Call where
  | getServers (req : Request) (attempts : List Attempt)
  /-- `fails`: the transaction is not committed. -/
  | releaseServers (username state : String) (fails : Bool)
  | releaseIp (ipaddr state : String) (fails : Bool)
  | addServer (ipaddr : String) (fails : Bool)
  | removeServer (ipaddr : String) (fails : Bool)

/-- The pool after a call. -/
def Call.run : Call → Pool → Pool
  | .getServers req attempts, pool => commit (bookedServers req attempts) pool
  | .releaseServers username state fails, pool =>
      if fails then pool else ServerManager.releaseServers username state pool
  | .releaseIp ipaddr state fails, pool =>
      if fails then pool else ServerManager.releaseIp ipaddr state pool
  | .addServer ipaddr fails, pool => ServerManager.addServer ipaddr fails pool
  | .removeServer ipaddr fails, pool => ServerManager.removeServer ipaddr fails pool

/-- A transaction is isolated: the attempt that is committed has read the pool as it is then. -/
def Call.Isolated (pool : Pool) : Call → Prop
  | .getServers req attempts => ∀ a, attempts.find? (fun a => a.commits req) = some a → a.pool = pool
  | _ => True

theorem Call.isolated_single (req : Request) (a : Attempt) : (Call.getServers req [a]).Isolated a.pool := by
  intro a' ha'
  rw [List.mem_singleton.1 (List.mem_of_find?_eq_some ha')]

/-- One call. -/
def Step (pool : Pool) (c : Call) (pool' : Pool) : Prop :=
  c.Isolated pool ∧ pool' = c.run pool

theorem Server.os_of_available {req : Request} {d : Server} (h : d.available req = true) :
    d.os = some req.osType := by
  rw [Server.available, Bool.and_eq_true, Bool.and_eq_true, decide_eq_true_eq, decide_eq_true_eq] at h
  exact h.1.2

/-! ## What a call does to a document -/

/-- How the document `id` comes to be `d'` when it was `d?` before. -/
inductive Change (c : Call) (id : String) (d? : Option Server) (d' : Server) : Prop where
  | kept (h : d? = some d')
  | booked (req : Request) (attempts : List Attempt) (d : Server) (hcall : c = .getServers req attempts)
      (hmem : id ∈ (bookedServers req attempts).map Prod.fst) (hd : d? = some d)
      (havailable : d.available req = true) (heq : d' = book req.username d)
  | released (username state : String) (d : Server) (hcall : c = .releaseServers username state false)
      (hd : d? = some d) (hbooked : d.bookedBy username = true) (heq : d' = release state d)
  | ipReleased (ipaddr state : String) (d : Server) (hcall : c = .releaseIp ipaddr state false)
      (hd : d? = some d) (hipaddr : d.ipaddr = some ipaddr) (hbooked : d.state = some "booked")
      (heq : d' = { d with state := some state })
  | added (hcall : c = .addServer id false) (heq : d' = addedServer id)

/-- A booked document was available when it was read, and has an address. -/
theorem mem_bookedServers {req : Request} {attempts : List Attempt} {pool : Pool}
    (hisolated : (Call.getServers req attempts).Isolated pool) {id : String} {d' : Server}
    (hmem : (id, d') ∈ bookedServers req attempts) :
    ∃ d, pool.get? id = some d ∧ d.available req = true ∧ d.ipaddr.isSome ∧ d' = book req.username d := by
  rw [bookedServers, runTransaction_eq] at hmem
  cases hfind : attempts.find? fun a => a.commits req with
  | none =>
      rw [hfind] at hmem
      cases hmem
  | some a =>
      rw [hfind] at hmem
      obtain rfl := hisolated a hfind
      change (id, d') ∈ ((allocateServers req a).2).getD [] at hmem
      unfold allocateServers at hmem
      split at hmem
      · cases hmem
      split at hmem
      · cases hfails : a.commitFails <;> simp [hfails] at hmem
      · simp only at hmem
        split at hmem
        next hdone =>
          rw [Bool.and_eq_true] at hdone
          rw [Option.getD_some, (bookRows_of_done hdone.1).2] at hmem
          obtain ⟨⟨id', d⟩, hrow, heq⟩ := List.mem_map.1 hmem
          obtain ⟨rfl, rfl⟩ := Prod.mk.inj heq
          have haddresses := hdone.1
          rw [bookRows_done, Bool.and_eq_true, List.all_eq_true] at haddresses
          have hread := List.mem_of_mem_take hrow
          rw [List.mem_insertionSort, List.mem_filter] at hread
          exact ⟨d, (Dict.get?_eq_some_iff _ _ _).2 hread.1, hread.2, haddresses.1 _ hrow, rfl⟩
        · cases hmem

/-- No document is booked twice by one call. -/
theorem nodup_bookedServers (req : Request) (attempts : List Attempt) :
    ((bookedServers req attempts).map Prod.fst).Nodup := by
  rw [bookedServers, runTransaction_eq]
  cases attempts.find? fun a => a.commits req with
  | none => exact List.nodup_nil
  | some a =>
      cases hdocs : (allocateServers req a).2 with
      | none => simp
      | some docs =>
          simp only [Option.getD_some]
          exact (returnsBooked_of_commit (Prod.ext rfl hdocs)).once

theorem get?_updateWhere {p : Server → Bool} {f : Server → Server} {pool : Pool} {id : String} {d' : Server}
    (h : (pool.updateWhere p f).get? id = some d') :
    ∃ d, pool.get? id = some d ∧ d' = if p d then f d else d := by
  rw [Dict.get?_eq_some_iff, Dict.mem_items_updateWhere] at h
  obtain ⟨d, hmem, heq⟩ := h
  exact ⟨d, (Dict.get?_eq_some_iff _ _ _).2 hmem, heq⟩

/-- **What a step can do**: every document after it is one that was there, untouched, booked or released, or
    the one that has been added. -/
theorem Step.change {pool pool' : Pool} {c : Call} (hstep : Step pool c pool') {id : String} {d' : Server}
    (hd' : pool'.get? id = some d') : Change c id (pool.get? id) d' := by
  obtain ⟨hisolated, rfl⟩ := hstep
  cases c with
  | getServers req attempts =>
      rw [Call.run, commit, Dict.get?_foldl_set _ (nodup_bookedServers req attempts)] at hd'
      cases hfind : Assoc.find id (bookedServers req attempts) with
      | none =>
          rw [hfind, Option.none_or] at hd'
          exact .kept hd'
      | some d'' =>
          rw [hfind, Option.some_or] at hd'
          obtain rfl := Option.some.inj hd'
          have hmem := (Assoc.find_eq_some_iff _ _ _ (nodup_bookedServers req attempts)).1 hfind
          obtain ⟨d, hd, havailable, -, heq⟩ := mem_bookedServers hisolated hmem
          exact .booked req attempts d rfl (List.mem_map_of_mem hmem) hd havailable heq
  | releaseServers username state fails =>
      cases fails with
      | true => exact .kept hd'
      | false =>
          obtain ⟨d, hd, heq⟩ := get?_updateWhere hd'
          by_cases hbooked : d.bookedBy username = true
          · rw [if_pos hbooked] at heq
            exact .released username state d rfl hd hbooked heq
          · rw [if_neg hbooked] at heq
            exact .kept (heq ▸ hd)
  | releaseIp ipaddr state fails =>
      cases fails with
      | true => exact .kept hd'
      | false =>
          change (ServerManager.releaseIp ipaddr state pool).get? id = some d' at hd'
          obtain ⟨d, hd, heq⟩ := get?_updateWhere hd'
          split at heq
          next hbooked =>
            rw [Bool.and_eq_true, decide_eq_true_eq, decide_eq_true_eq] at hbooked
            exact .ipReleased ipaddr state d rfl hd hbooked.1 hbooked.2 heq
          · exact .kept (heq ▸ hd)
  | addServer ipaddr fails =>
      cases fails with
      | true => exact .kept hd'
      | false =>
          change (pool.set ipaddr (addedServer ipaddr)).get? id = some d' at hd'
          rw [Dict.get?_set] at hd'
          split at hd'
          next heq =>
            subst heq
            exact .added rfl (Option.some.inj hd').symm
          · exact .kept hd'
  | removeServer ipaddr fails =>
      cases fails with
      | true => exact .kept hd'
      | false =>
          change (pool.del ipaddr).get? id = some d' at hd'
          rw [Dict.get?_del] at hd'
          split at hd'
          · cases hd'
          · exact .kept hd'

/-- A document that is booked in a step was available before it and is the user's after it. -/
theorem Step.booked {pool pool' : Pool} {req : Request} {attempts : List Attempt}
    (hstep : Step pool (.getServers req attempts) pool') {id : String} {d' : Server}
    (hmem : (id, d') ∈ bookedServers req attempts) :
    (∃ d, pool.get? id = some d ∧ d.available req = true ∧ d' = book req.username d) ∧
      pool'.get? id = some d' ∧ d'.ipaddr.isSome := by
  obtain ⟨hisolated, rfl⟩ := hstep
  obtain ⟨d, hd, havailable, hipaddr, heq⟩ := mem_bookedServers hisolated hmem
  refine ⟨⟨d, hd, havailable, heq⟩, ?_, heq ▸ hipaddr⟩
  rw [Call.run, commit, Dict.get?_foldl_set _ (nodup_bookedServers req attempts),
    (Assoc.find_eq_some_iff _ _ _ (nodup_bookedServers req attempts)).2 hmem, Option.some_or]

/-! ## A server that `add_server` has put in -/

/-- The document, if there is one, has no `os`. -/
def Unlisted (id : String) (pool : Pool) : Prop :=
  ∀ d, pool.get? id = some d → d.os = none

theorem Step.unlisted {id : String} {pool pool' : Pool} {c : Call} (hstep : Step pool c pool')
    (h : Unlisted id pool) : Unlisted id pool' := by
  intro d' hd'
  cases hstep.change hd' with
  | kept hd => exact h d' hd
  | booked req attempts d hcall hmem hd havailable heq => exact heq ▸ h d hd
  | released username state d hcall hd hbooked heq => exact heq ▸ h d hd
  | ipReleased ipaddr state d hcall hd hipaddr hbooked heq => exact heq ▸ h d hd
  | added hcall heq => exact heq ▸ rfl

/-- **A server that `add_server` has stored is never handed out**: whatever calls follow, no `get_servers`
    books it, as `add_server` writes `OS` and the queries ask for `os`. -/
theorem addServer_never_booked {pool pool' pool'' : Pool} {before after : List Call} {ipaddr : String}
    {req : Request} {attempts : List Attempt}
    (hrun : Runs Step pool (before ++ .addServer ipaddr false :: after) pool')
    (hbook : Step pool' (.getServers req attempts) pool'') :
    ipaddr ∉ (bookedServers req attempts).map Prod.fst := by
  obtain ⟨before', -, hrun⟩ := Runs.append_iff.1 hrun
  obtain ⟨added, hadd, hafter⟩ := Runs.cons_iff.1 hrun
  have hunlisted : Unlisted ipaddr added := by
    intro d hd
    obtain ⟨-, rfl⟩ := hadd
    change (before'.set ipaddr (addedServer ipaddr)).get? ipaddr = some d at hd
    rw [Dict.get?_set, if_pos rfl] at hd
    exact Option.some.inj hd ▸ rfl
  have hlater : Unlisted ipaddr pool' :=
    hafter.invariant_of_all (Unlisted ipaddr) (fun _ _ _ hstep h => hstep.unlisted h) hunlisted
  intro hmem
  obtain ⟨⟨_, d'⟩, hentry, rfl⟩ := List.mem_map.1 hmem
  obtain ⟨⟨d, hd, havailable, -⟩, -⟩ := hbook.booked hentry
  exact Option.some_ne_none _ ((Server.os_of_available havailable).symm.trans (hlater d hd))

/-- A pool with one free server. -/
def onePool : Pool := Dict.empty.set "s1" (freeServer "10.0.0.1")

/-- A server is added next to the free one; only that one is booked. -/
theorem addServer_never_booked_onePool :
    (bookedServers ⟨"user", 1, "centos", "12hour"⟩
        [⟨(Call.addServer "10.0.0.2" false).run onePool, false, none, false⟩]).map Prod.fst = ["s1"] ∧
      "10.0.0.2" ∉ (bookedServers ⟨"user", 1, "centos", "12hour"⟩
        [⟨(Call.addServer "10.0.0.2" false).run onePool, false, none, false⟩]).map Prod.fst :=
  ⟨by decide +kernel,
    @addServer_never_booked onePool ((Call.addServer "10.0.0.2" false).run onePool) _ [] [] "10.0.0.2" _ _
      (.cons ⟨trivial, rfl⟩ (.nil _)) ⟨Call.isolated_single _ _, rfl⟩⟩

end ServerManager

end TestInfra
