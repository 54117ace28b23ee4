import TestInfra.ServerManager.GetServers

set_option autoImplicit false

/-! # Servers back to the pool

`ServerManager.release_servers` frees what is booked under a user name, in a transaction, and `release_ip`
gives one address another state. What a transaction of `get_servers` replaced is put into the pool by
`commit`. -/

namespace TestInfra

namespace ServerManager

/-- The replacements of a transaction that is committed. -/
def commit (docs : List (String × Server)) (pool : Pool) : Pool :=
  docs.foldl (fun acc d => acc.set d.1 d.2) pool

/-- `WHERE username='{username}' AND state='booked'`. -/
def Server.bookedBy (username : String) (d : Server) : Bool :=
  d.username = some username && d.state = some "booked"

/-- The document that `release_servers` writes. -/
def release (state : String) (d : Server) : Server :=
  { d with state := some state, prevUser := some (d.username.getD ""), username := some "" }

/-- `release_servers`, when its transaction is committed. Otherwise it logs the error and the pool stays as
    it is. -/
def releaseServers (username : String) (state : String) (pool : Pool) : Pool :=
  pool.updateWhere (Server.bookedBy username) (release state)

/-- `release_ip`: `UPDATE .. SET state='{state}' WHERE ipaddr='{ipaddr}' AND state='booked'`. The user name
    stays. -/
def releaseIp (ipaddr state : String) (pool : Pool) : Pool :=
  pool.updateWhere (fun d => d.ipaddr = some ipaddr && d.state = some "booked")
    fun d => { d with state := some state }

/-- A server of the pool is booked under the user name. -/
def anyBookedBy (username : String) (pool : Pool) : Bool :=
  pool.items.any fun d => d.2.bookedBy username

/-- **`release_servers` leaves nothing booked under the name.** -/
theorem anyBookedBy_releaseServers (username : String) {state : String} (hstate : state ≠ "booked")
    (pool : Pool) : anyBookedBy username (releaseServers username state pool) = false := by
  rw [anyBookedBy, List.any_eq_false]
  rintro ⟨id, d⟩ hmem hbooked
  obtain ⟨d', -, rfl⟩ := Dict.mem_items_updateWhere.1 hmem
  by_cases hd : d'.bookedBy username = true
  · rw [if_pos hd, Server.bookedBy, Bool.and_eq_true, decide_eq_true_eq, decide_eq_true_eq] at hbooked
    exact hstate (Option.some.inj hbooked.2)
  · rw [if_neg hd] at hbooked
    exact hd hbooked

/-- `release_ip` books nothing. -/
theorem anyBookedBy_releaseIp {username : String} {state : String} (hstate : state ≠ "booked")
    (ipaddr : String) {pool : Pool} (h : anyBookedBy username pool = false) :
    anyBookedBy username (releaseIp ipaddr state pool) = false := by
  rw [anyBookedBy, List.any_eq_false] at h ⊢
  rintro ⟨id, d⟩ hmem hbooked
  obtain ⟨d', hmem', rfl⟩ := Dict.mem_items_updateWhere.1 hmem
  split at hbooked
  · rw [Server.bookedBy, Bool.and_eq_true, decide_eq_true_eq, decide_eq_true_eq] at hbooked
    exact hstate (Option.some.inj hbooked.2)
  · exact h _ hmem' hbooked

end ServerManager

end TestInfra
