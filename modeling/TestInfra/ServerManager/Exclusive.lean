import TestInfra.ServerManager.Calls

set_option autoImplicit false

/-! # One server, one user

Between two bookings of one server it has been freed: by `release_servers` for the user who had it, or by
`release_ip` for its address. What carries this through a run is `Held`: a server that a user has is not
available again before such a call. Addresses are what users get, so they have to tell the servers that can be
booked apart; calls keep that (`Step.addressed`). -/

namespace TestInfra

namespace ServerManager

/-- The call can make the server with this address, booked for the user, available. A release into the state
    `booked` takes the user's name away, and whoever releases the empty name frees it. -/
def Call.frees (username ipaddr : String) : Call → Bool
  | .releaseServers username' state fails =>
      username' = username && (state = "available" || state = "booked") && !fails
  | .releaseIp ipaddr' state fails => ipaddr' = ipaddr && state = "available" && !fails
  | _ => false

/-- The user has the document: nobody can book it, and if it is marked as booked it is for the user. -/
def Held (username ipaddr id : String) (pool : Pool) : Prop :=
  ∀ d, pool.get? id = some d → d.os = none ∨
    d.state ≠ some "available" ∧
      (d.state = some "booked" → d.username = some username ∧ d.ipaddr = some ipaddr)

/-- A booking takes a document away from nobody. -/
theorem Held.not_available {username ipaddr id : String} {pool : Pool} (h : Held username ipaddr id pool)
    {d : Server} (hd : pool.get? id = some d) (req : Request) : d.available req = false := by
  rw [Bool.eq_false_iff, Ne, Server.available, Bool.and_eq_true, Bool.and_eq_true, decide_eq_true_eq,
    decide_eq_true_eq]
  rintro ⟨⟨hstate, hos⟩, -⟩
  rcases h d hd with hnone | ⟨hnot, -⟩
  · exact Option.some_ne_none _ (hos.symm.trans hnone)
  · exact hnot hstate

/-- **What does not free the server leaves it with the user.** -/
theorem Step.held {username ipaddr id : String} {pool pool' : Pool} {c : Call}
    (hfrees : c.frees username ipaddr = false) (hstep : Step pool c pool')
    (h : Held username ipaddr id pool) : Held username ipaddr id pool' := by
  intro d' hd'
  cases hstep.change hd' with
  | kept hd => exact h d' hd
  | booked req attempts d hcall hmem hd havailable heq =>
      rw [h.not_available hd req] at havailable
      cases havailable
  | released username' state d hcall hd hbooked heq =>
      subst hcall heq
      rw [Server.bookedBy, Bool.and_eq_true, decide_eq_true_eq, decide_eq_true_eq] at hbooked
      refine (h d hd).imp (fun hos => hos) ?_
      rintro ⟨-, howner⟩
      obtain rfl : username' = username :=
        Option.some.inj (hbooked.1.symm.trans (howner hbooked.2).1)
      simp only [Call.frees, decide_true, Bool.true_and, Bool.not_false, Bool.and_true,
        Bool.or_eq_false_iff, decide_eq_false_iff_not] at hfrees
      exact ⟨fun hstate => hfrees.1 (Option.some.inj hstate),
        fun hstate => absurd (Option.some.inj hstate) hfrees.2⟩
  | ipReleased ipaddr' state d hcall hd hipaddr hbooked heq =>
      subst hcall heq
      refine (h d hd).imp (fun hos => hos) ?_
      rintro ⟨-, howner⟩
      obtain rfl : ipaddr' = ipaddr := Option.some.inj (hipaddr.symm.trans (howner hbooked).2)
      simp only [Call.frees, decide_true, Bool.true_and, Bool.not_false, Bool.and_true,
        decide_eq_false_iff_not] at hfrees
      exact ⟨fun hstate => hfrees (Option.some.inj hstate), fun _ => howner hbooked⟩
  | added hcall heq => exact Or.inl (heq ▸ rfl)

/-- Two servers that can be booked have two addresses. -/
def Addressed (pool : Pool) : Prop :=
  ∀ id id' d d' ip, pool.get? id = some d → pool.get? id' = some d' → d.os.isSome → d'.os.isSome →
    d.ipaddr = some ip → d'.ipaddr = some ip → id = id'

/-- A server that can be booked after a step could be before, under the same address. -/
theorem Step.listed {pool pool' : Pool} {c : Call} (hstep : Step pool c pool') {id : String} {d' : Server}
    (hd' : pool'.get? id = some d') (hos : d'.os.isSome) :
    ∃ d, pool.get? id = some d ∧ d.os.isSome ∧ d.ipaddr = d'.ipaddr := by
  cases hstep.change hd' with
  | kept hd => exact ⟨d', hd, hos, rfl⟩
  | booked req attempts d hcall hmem hd havailable heq =>
      subst heq
      exact ⟨d, hd, hos, rfl⟩
  | released username state d hcall hd hbooked heq =>
      subst heq
      exact ⟨d, hd, hos, rfl⟩
  | ipReleased ipaddr state d hcall hd hipaddr hbooked heq =>
      subst heq
      exact ⟨d, hd, hos, rfl⟩
  | added hcall heq =>
      subst heq
      cases hos

/-- What can be booked after a run could be before it, under the same address. -/
theorem listed_of_runs {pool pool' : Pool} {calls : List Call} (hrun : Runs Step pool calls pool') {id : String}
    {d' : Server} (hd' : pool'.get? id = some d') (hos : d'.os.isSome) :
    ∃ d, pool.get? id = some d ∧ d.os.isSome ∧ d.ipaddr = d'.ipaddr := by
  refine hrun.invariant_of_all (fun later => ∀ d', later.get? id = some d' → d'.os.isSome →
    ∃ d, pool.get? id = some d ∧ d.os.isSome ∧ d.ipaddr = d'.ipaddr) ?_ ?_ d' hd' hos
  · intro s c t hstep ih d' hd' hos
    obtain ⟨e, he, heos, heip⟩ := hstep.listed hd' hos
    obtain ⟨d, hd, hdos, hdip⟩ := ih e he heos
    exact ⟨d, hd, hdos, hdip.trans heip⟩
  · exact fun d' hd' hos => ⟨d', hd', hos, rfl⟩

theorem Step.addressed {pool pool' : Pool} {c : Call} (hstep : Step pool c pool') (h : Addressed pool) :
    Addressed pool' := by
  intro id id' d d' ip hd hd' hos hos' hip hip'
  obtain ⟨e, he, heos, heip⟩ := hstep.listed hd hos
  obtain ⟨e', he', heos', heip'⟩ := hstep.listed hd' hos'
  exact h id id' e e' ip he he' heos heos' (heip.trans hip) (heip'.trans hip')

/-- The addresses of the documents that a call books. -/
def bookedAddresses (req : Request) (attempts : List Attempt) : List String :=
  (bookedServers req attempts).filterMap fun d => d.2.ipaddr

/-- **Nobody is given a server that somebody has**: in every run, between two calls that book one address
    there is one that frees it, for the user who had it. -/
theorem freed_between_bookings {pool pool' : Pool} (haddressed : Addressed pool) {before between : List Call}
    {req req' : Request} {attempts attempts' : List Attempt}
    (hrun : Runs Step pool
      (before ++ .getServers req attempts :: (between ++ [.getServers req' attempts'])) pool')
    {ip : String} (hip : ip ∈ bookedAddresses req attempts) (hip' : ip ∈ bookedAddresses req' attempts') :
    ∃ c ∈ between, c.frees req.username ip = true := by
  obtain ⟨start, hbefore, hrun⟩ := Runs.append_iff.1 hrun
  obtain ⟨start', hfirst, hrun⟩ := Runs.cons_iff.1 hrun
  obtain ⟨last, hbetween, hlast⟩ := Runs.append_iff.1 hrun
  obtain ⟨final, hfinal, -⟩ := Runs.cons_iff.1 hlast
  obtain ⟨⟨id, d⟩, hmem, hdip⟩ := List.mem_filterMap.1 hip
  obtain ⟨⟨id', d'⟩, hmem', hdip'⟩ := List.mem_filterMap.1 hip'
  obtain ⟨⟨e, -, heavailable, rfl⟩, hd, -⟩ := hfirst.booked hmem
  obtain ⟨⟨e', he', havailable, rfl⟩, -, -⟩ := hfinal.booked hmem'
  have haddressed' : Addressed start :=
    hbefore.invariant_of_all Addressed (fun _ _ _ hstep h => hstep.addressed h) haddressed
  -- the document booked second is the one booked first: it had the address already then
  obtain ⟨e'', he'', hos'', hip''⟩ := listed_of_runs hbetween he' (by simp [Server.os_of_available havailable])
  obtain rfl : id = id' :=
    hfirst.addressed haddressed' id id' _ e'' ip hd he'' (by simp [book, Server.os_of_available heavailable])
      hos'' hdip (hip''.trans hdip')
  have hheld : Held req.username ip id start' := by
    intro d hd'
    obtain rfl := Option.some.inj (hd'.symm.trans hd)
    exact Or.inr ⟨by simp [book], fun _ => ⟨rfl, hdip⟩⟩
  have hlost : ¬ Held req.username ip id last := by
    intro hkept
    rw [hkept.not_available he' req'] at havailable
    cases havailable
  obtain ⟨c, hc, hfrees⟩ := hbetween.exists_breaker
    (fun c => c.frees req.username ip = false) (fun _ _ _ hkeeps hstep h => hstep.held hkeeps h)
    hheld hlost
  exact ⟨c, hc, by simpa using hfrees⟩

/-- What one user releases, the next one gets. -/
theorem freed_between_bookings_released :
    ∃ c ∈ [Call.releaseServers "first" "available" false], c.frees "first" "10.0.0.1" = true := by
  let book := Call.getServers ⟨"first", 1, "centos", "12hour"⟩ [⟨onePool, false, none, false⟩]
  let free := Call.releaseServers "first" "available" false
  let attempt : Attempt := ⟨free.run (book.run onePool), false, none, false⟩
  have haddressed : Addressed onePool := by
    intro id id' d d' ip hd hd' _ _ _ _
    have hkey : ∀ {id d}, onePool.get? id = some d → id = "s1" := by
      intro id d h
      have hmem := (Dict.get?_eq_some_iff _ _ _).1 h
      exact congrArg Prod.fst (List.mem_singleton.1 hmem)
    rw [hkey hd, hkey hd']
  exact @freed_between_bookings onePool _ haddressed [] [free] ⟨"first", 1, "centos", "12hour"⟩
    ⟨"second", 1, "centos", "12hour"⟩ [⟨onePool, false, none, false⟩] [attempt]
    (.cons ⟨Call.isolated_single _ _, rfl⟩ (.cons ⟨trivial, rfl⟩
      (.cons ⟨Call.isolated_single _ attempt, rfl⟩ (.nil _))))
    "10.0.0.1" (by decide +kernel) (by decide +kernel)

end ServerManager

end TestInfra
