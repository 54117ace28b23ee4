import TestInfra.DynVm.Orphans

set_option autoImplicit false

/-! # What a request does to VMs and timers

Every call of `create_vms_single_host` that a request makes starts timers and deletes VMs by host and name;
both can be read off the answers of the hosts. `Grown` says what this leaves of the VMs and timers that were
there before: every new VM has a timer of its own, and nothing is gone but what was deleted by its host and
name. -/

namespace TestInfra

namespace DynVm

namespace Xen

/-! ## Timers started and VMs deleted -/

/-- The names whose timers a call starts. -/
def Host.started (host : Host) (names : List String) : List String :=
  if host.overprovisioned = some false && host.opens then
    (host.reached names).filter fun name => (host.creation name).starts
  else []

/-- The names that the loop of a call hands to `delete_vms`. -/
def Host.failing (checkvms : Bool) (host : Host) : List String → List String
  | [] => []
  | name :: rest =>
      if !host.reserve.listed name then host.failing checkvms rest
      else if host.overprovisionedAt name = none then []
      else if host.reserve.fails checkvms name then
        name :: if (host.creation name).result.2 = "" then [] else host.failing checkvms rest
      else host.failing checkvms rest

/-- `delete_vms` goes through a name by its characters. -/
def characters (ref : ℕ) (name : String) : List (ℕ × String) :=
  name.toList.map fun c => (ref, String.ofList [c])

/-- What a call hands to `delete_vm`, by host and name. -/
def Host.deletions (checkvms : Bool) (host : Host) (names : List String) : List (ℕ × String) :=
  if host.overprovisioned = some false && host.opens then
    ((host.reached names).filter fun name => !(host.creation name).lives).map (host.ref, ·) ++
      if host.logoutRaises || names.any fun name => (host.creation name).exits then []
      else (host.failing checkvms names).flatMap (characters host.ref)
  else []

/-- The calls that the loop over the hosts makes. -/
def callsFrom (checkvms : Bool) (order : List String → List String) :
    List (Int × Host) → List String → List (Host × List String)
  | [], _ => []
  | (available, host) :: rest, need =>
      if need = [] then []
      else if 0 < available then
        (host, asked order available need) ::
          match host.ends checkvms (asked order available need) with
          | .exited => []
          | .raised => callsFrom checkvms order rest need
          | .returned kept => callsFrom checkvms order rest (need.diff kept)
      else callsFrom checkvms order rest need

/-- The calls of `create_vms_single_host` that a request makes. -/
def Request.calls (r : Request) : List (Host × List String) :=
  match r.xhost with
  | some host => [(host, r.vmNames)]
  | none =>
      match r.hosts with
      | none => []
      | some hosts =>
          if r.count > max ((hosts.map Prod.fst).sum - (r.reserved - r.count)) 0 then []
          else callsFrom r.checkvms r.order hosts r.vmNames

/-- The names whose timers a request starts. -/
def Request.started (r : Request) : List String := r.calls.flatMap fun call => call.1.started call.2

/-- What a request hands to `delete_vm` before its end. -/
def Request.deletions (r : Request) : List (ℕ × String) :=
  r.calls.flatMap fun call => call.1.deletions r.checkvms call.2

/-- How many VMs a request has in the end, `none` when it ends without an answer. -/
def Request.kept (r : Request) : Option ℕ :=
  match r.xhost with
  | some host =>
      match host.ends r.checkvms r.vmNames with
      | .returned kept => some kept.length
      | _ => none
  | none =>
      match r.hosts with
      | none => none
      | some hosts =>
          if r.count > max ((hosts.map Prod.fst).sum - (r.reserved - r.count)) 0 then none
          else (keptFrom r.checkvms r.order hosts r.vmNames).map List.length

/-- The request releases its names in the end. -/
def Request.releases (r : Request) : Bool :=
  match r.kept with
  | some kept => (kept : Int) ≠ r.count && r.allOrNone
  | none => false

/-! ## What a request gives back -/

/-- The request as the reservations see it. -/
def Request.reserve (r : Request) (labels : Labels) : DynVm.Request where
  username := r.username
  count := r.count
  checkvms := r.checkvms
  labels := labels
  xhost := r.xhost.map Host.reserve
  hosts := r.hosts.map fun hosts => hosts.map fun entry => (entry.1, entry.2.reserve)
  reserved := r.reserved
  order := r.order
  order_perm := r.order_perm

/-- The loop over the hosts keeps the same names in both models. -/
theorem distribute_reserve (checkvms : Bool) (labels : Labels) (order : List String → List String)
    (hosts : List (Int × Host)) (need : List String) :
    (DynVm.distribute checkvms labels order (hosts.map fun entry => (entry.1, entry.2.reserve)) need).2 =
      (keptFrom checkvms order hosts need).map (List.map Prod.snd) := by
  induction hosts generalizing need with
  | nil => rfl
  | cons entry rest ih =>
      obtain ⟨available, host⟩ := entry
      have hends := createVmsSingleHost_reserve checkvms host (asked order available need) labels
      rw [List.map_cons, DynVm.distribute, keptFrom]
      split
      · rfl
      split
      · dsimp only
        rw [asked] at hends ⊢
        rcases hcall : DynVm.createVmsSingleHost checkvms host.reserve
          ((order need).take (min available need.length).toNat) labels with ⟨ops, kept | _ | _⟩ <;>
          rw [hcall] at hends <;> rw [← hends]
        · have hrest := ih (need.diff kept)
          dsimp only
          rw [hrest, Option.map_map, Option.map_map]
          congr 1
          funext merged
          simp
        · exact ih need
        · rfl
      · exact ih need

theorem getLast?_of_xhost {r : DynVm.Request} {host : DynVm.Host} (hxhost : r.xhost = some host)
    {kept : List String}
    (h : (DynVm.createVmsSingleHost r.checkvms host (generateVmNames r.username r.count) r.labels).2 = .returned kept) :
    (DynVm.getserversService r).getLast? = some (.decrease (r.count - kept.length) r.labels) := by
  rw [DynVm.getserversService, hxhost]
  rcases hcall : DynVm.createVmsSingleHost r.checkvms host (generateVmNames r.username r.count) r.labels
    with ⟨ops, ended⟩
  rw [hcall] at h
  obtain rfl : ended = _ := h
  simp only [hcall, ← List.cons_append, List.getLast?_concat]

theorem getLast?_of_hosts {r : DynVm.Request} (hxhost : r.xhost = none) {hosts : List (Int × DynVm.Host)}
    (hhosts : r.hosts = some hosts)
    (hadmitted : ¬ r.count > max ((hosts.map Prod.fst).sum - (r.reserved - r.count)) 0) {merged : List String}
    (h : (DynVm.distribute r.checkvms r.labels r.order hosts (generateVmNames r.username r.count)).2 = some merged) :
    (DynVm.getserversService r).getLast? = some (.decrease (r.count - merged.length) r.labels) := by
  rw [DynVm.getserversService, hxhost, hhosts]
  rcases hloop : DynVm.distribute r.checkvms r.labels r.order hosts (generateVmNames r.username r.count)
    with ⟨ops, ended⟩
  rw [hloop] at h
  obtain rfl : ended = _ := h
  simp only [if_neg hadmitted, hloop, ← List.cons_append, List.getLast?_concat]

/-- **A request gives back what it has not used**: when it has so many VMs in the end, its last call on the
    reservations is for the rest. -/
theorem getLast?_getserversService (r : Request) (labels : Labels) {kept : ℕ} (h : r.kept = some kept) :
    (DynVm.getserversService (r.reserve labels)).getLast? = some (.decrease (r.count - kept) labels) := by
  unfold Request.kept at h
  cases hxhost : r.xhost with
  | some host =>
      rw [hxhost] at h
      have hends := createVmsSingleHost_reserve r.checkvms host r.vmNames labels
      dsimp only at h
      split at h
      · next names hcall =>
          obtain rfl := Option.some.inj h
          have hreserved : (r.reserve labels).xhost = some host.reserve := congrArg (Option.map Host.reserve) hxhost
          exact getLast?_of_xhost hreserved (hends.trans hcall)
      · cases h
  | none =>
      rw [hxhost] at h
      have hreserved : (r.reserve labels).xhost = none := congrArg (Option.map Host.reserve) hxhost
      dsimp only at h
      split at h
      · cases h
      · next hosts hhosts =>
          split at h
          · cases h
          · next hadmitted =>
              obtain ⟨merged, hmerged, rfl⟩ := Option.map_eq_some_iff.1 h
              have hloop := distribute_reserve r.checkvms labels r.order hosts r.vmNames
              rw [hmerged, Option.map_some] at hloop
              have hsum : (hosts.map fun entry => (entry.1, entry.2.reserve)).map Prod.fst = hosts.map Prod.fst := by
                rw [List.map_map]
                rfl
              have hlast := getLast?_of_hosts hreserved (congrArg (Option.map _) hhosts)
                (by rw [hsum]; exact hadmitted) hloop
              rwa [List.length_map] at hlast

/-! ## One call after the other -/

/-- A call of `create_vms_single_host` with its arguments. -/
def makeCall (o : Order) (checkvms : Bool) (w : World) (call : Host × List String) : World :=
  (createVmsSingleHost o checkvms call.1 call.2 w).2

theorem distribute_calls (o : Order) (checkvms : Bool) (order : List String → List String)
    (hosts : List (Int × Host)) (need : List String) (w : World) :
    (distribute o checkvms order hosts need w).2 =
      (callsFrom checkvms order hosts need).foldl (makeCall o checkvms) w := by
  induction hosts generalizing need w with
  | nil => rfl
  | cons entry rest ih =>
      obtain ⟨available, host⟩ := entry
      have hfst := createVmsSingleHost_fst o checkvms host (asked order available need) w
      rw [distribute, callsFrom]
      split
      · rfl
      split
      · dsimp only
        rw [List.foldl_cons, makeCall]
        dsimp only
        rw [asked] at hfst ⊢
        rcases hcall : createVmsSingleHost o checkvms host
          ((order need).take (min available need.length).toNat) w with ⟨kept | _ | _, w'⟩ <;>
          rw [hcall] at hfst <;> rw [← hfst]
        · exact ih _ w'
        · exact ih need w'
        · rfl
      · exact ih need w

/-- The end of a request that has so many VMs. -/
def Request.finish (r : Request) (w : World) : Option ℕ → World
  | some kept =>
      if (kept : Int) ≠ r.count ∧ r.allOrNone = true then releaseServers r.config r.username r.count w else w
  | none => w

theorem conclude_snd (r : Request) (vms : List (ℕ × String)) (w : World) :
    (r.conclude vms w).2 = r.finish w (some vms.length) := by
  rw [Request.conclude, Request.finish]
  split
  · rfl
  · rfl

theorem getserversService_finish (r : Request) (w : World) :
    (getserversService r w).2 = r.finish (r.calls.foldl (makeCall r.vmOrder r.checkvms) w) r.kept := by
  rw [getserversService, Request.kept, Request.calls]
  rcases r.xhost with _ | host
  case some =>
    have hfst := createVmsSingleHost_fst r.vmOrder r.checkvms host r.vmNames w
    dsimp only
    rw [List.foldl_cons, List.foldl_nil, makeCall]
    rcases hcall : createVmsSingleHost r.vmOrder r.checkvms host r.vmNames w with ⟨kept | _ | _, w'⟩ <;>
      rw [hcall] at hfst <;> rw [← hfst]
    · refine (conclude_snd r _ w').trans ?_
      rw [List.length_map]
    · rfl
    · rfl
  rcases r.hosts with _ | hosts
  · rfl
  · dsimp only
    split
    · rfl
    · have hfst := distribute_fst r.vmOrder r.checkvms r.order hosts r.vmNames w
      rw [← distribute_calls]
      rcases hloop : distribute r.vmOrder r.checkvms r.order hosts r.vmNames w with ⟨_ | merged, w'⟩ <;>
        rw [hloop] at hfst <;> rw [← hfst]
      · rfl
      · exact conclude_snd r merged w'

/-- **A request makes its calls and, if it releases its names, then does so.** -/
theorem getserversService_snd (r : Request) (w : World) :
    (getserversService r w).2 =
      if r.releases = true then
        releaseServers r.config r.username r.count (r.calls.foldl (makeCall r.vmOrder r.checkvms) w)
      else r.calls.foldl (makeCall r.vmOrder r.checkvms) w := by
  rw [getserversService_finish, Request.releases]
  rcases r.kept with _ | kept
  · rfl
  · rw [Request.finish]
    simp only [Bool.and_eq_true, decide_eq_true_eq]

/-! ## What is left of VMs and timers -/

/-- **What has become of the VMs and timers of `w₀`** after these timers were started and VMs were deleted on
    these hosts under these names. -/
structure Grown (w₀ : World) (new : List Timer) (gone : List (ℕ × String)) (w : World) : Prop where
  next_le : w₀.next ≤ w.next
  timers : w.timers = w₀.timers ++ new
  fresh : ∀ t ∈ new, w₀.next ≤ t.uuid
  /-- A new VM has its timer, which is not due before the VM expires. -/
  timed : ∀ m ∈ w.machines, m ∈ w₀.machines ∨
    ∃ t ∈ new, t.name = m.name ∧ t.uuid = m.uuid ∧ m.expiredTime ≤ t.due
  unique : ∀ m ∈ w.machines, ∀ m' ∈ w.machines, w₀.next ≤ m.uuid → m.uuid = m'.uuid → m = m'
  kept : ∀ m ∈ w₀.machines, m ∈ w.machines ∨ (m.ref, m.name) ∈ gone

variable {w₀ w : World} {new : List Timer} {gone : List (ℕ × String)}

theorem Grown.refl (w : World) : Grown w [] [] w where
  next_le := Nat.le_refl _
  timers := (List.append_nil _).symm
  fresh := fun _ ht => nomatch ht
  timed := fun _ hm => Or.inl hm
  unique := fun m hm _ _ hle _ => absurd hle (Nat.not_le.2 (w.fresh m hm))
  kept := fun _ hm => Or.inl hm

theorem Grown.deleteVm (h : Grown w₀ new gone w) (ref : ℕ) (name : String) :
    Grown w₀ new (gone ++ [(ref, name)]) (w.deleteVm ref name) where
  next_le := h.next_le
  timers := h.timers
  fresh := h.fresh
  timed := fun m hm => h.timed m (List.mem_of_mem_filter hm)
  unique := fun m hm m' hm' => h.unique m (List.mem_of_mem_filter hm) m' (List.mem_of_mem_filter hm')
  kept := by
    intro m hm
    rcases h.kept m hm with hkept | hgone
    · by_cases hdelete : m.ref = ref ∧ m.name = name
      · refine Or.inr (List.mem_append_right _ ?_)
        rw [hdelete.1, hdelete.2]
        exact List.mem_singleton_self _
      · refine Or.inl (List.mem_filter.2 ⟨hkept, ?_⟩)
        rw [← Bool.decide_and, Bool.not_eq_true', decide_eq_false_iff_not]
        exact hdelete
    · exact Or.inr (List.mem_append_left _ hgone)

theorem Grown.startTimer (h : Grown w₀ new gone w) (due : Int) (name : String) :
    Grown w₀ (new ++ [⟨due, name, w.next⟩]) gone (w.startTimer due name) where
  next_le := Nat.le_succ_of_le h.next_le
  timers := by
    rw [← List.append_assoc, ← h.timers]
    rfl
  fresh := by
    intro t ht
    rcases List.mem_append.1 ht with ht | ht
    · exact h.fresh t ht
    · rw [List.mem_singleton.1 ht]
      exact h.next_le
  timed := by
    intro m hm
    rcases h.timed m hm with hold | ⟨t, ht, htimer⟩
    · exact Or.inl hold
    · exact Or.inr ⟨t, List.mem_append_left _ ht, htimer⟩
  unique := h.unique
  kept := h.kept

/-- A VM that is added with its timer. -/
theorem Grown.addMachine (h : Grown w₀ new gone w) {due : Int} {m : Machine} (huuid : m.uuid = w.next)
    (hdue : m.expiredTime ≤ due) (hlt : m.uuid < (w.startTimer due m.name).next) :
    Grown w₀ (new ++ [⟨due, m.name, w.next⟩]) gone ((w.startTimer due m.name).addMachine m hlt) where
  next_le := Nat.le_succ_of_le h.next_le
  timers := (h.startTimer due m.name).timers
  fresh := (h.startTimer due m.name).fresh
  timed := by
    intro m' hm'
    rcases List.mem_append.1 hm' with hm' | hm'
    · exact (h.startTimer due m.name).timed m' hm'
    · rw [List.mem_singleton.1 hm']
      exact Or.inr ⟨_, List.mem_append_right _ (List.mem_singleton_self _), rfl, huuid.symm, hdue⟩
  unique := by
    have hother : ∀ m' ∈ w.machines, m'.uuid ≠ m.uuid := by
      intro m' hm' heq
      exact absurd (w.fresh m' hm') (by rw [heq, huuid]; exact Nat.lt_irrefl _)
    intro m₁ hm₁ m₂ hm₂ hle heq
    rcases List.mem_append.1 hm₁ with hm₁ | hm₁ <;> rcases List.mem_append.1 hm₂ with hm₂ | hm₂
    · exact h.unique m₁ hm₁ m₂ hm₂ hle heq
    · rw [List.mem_singleton.1 hm₂] at heq
      exact absurd heq (hother m₁ hm₁)
    · rw [List.mem_singleton.1 hm₁] at heq
      exact absurd heq.symm (hother m₂ hm₂)
    · rw [List.mem_singleton.1 hm₁, List.mem_singleton.1 hm₂]
  kept := by
    intro m' hm'
    rcases h.kept m' hm' with hkept | hgone
    · exact Or.inl (List.mem_append_left _ hkept)
    · exact Or.inr hgone

/-- More may be said to be gone. -/
theorem Grown.mono (h : Grown w₀ new gone w) {gone' : List (ℕ × String)} (hsub : gone ⊆ gone') :
    Grown w₀ new gone' w :=
  { h with kept := fun m hm => (h.kept m hm).imp_right fun hgone => hsub hgone }

/-! ## Over a call -/

theorem Grown.createVm (h : Grown w₀ new gone w) (o : Order) (ref : ℕ) (name : String) {c : Creation}
    (hexits : c.exits = false) :
    ∃ more, more.map Timer.name = (if c.starts then [name] else []) ∧
      Grown w₀ (new ++ more) (gone ++ if c.lives then [] else [(ref, name)]) (createVm o ref name c w).2 := by
  rcases createVm_cases o ref name c w with ⟨hyes, -, -, -⟩ | ⟨-, hlives, hstarts, heq⟩ |
    ⟨-, hlives, hstarts, heq⟩ | ⟨-, hlives, hstarts, hlt, heq⟩
  · rw [hexits] at hyes
    cases hyes
  · rw [hlives, hstarts, heq]
    refine ⟨[], rfl, ?_⟩
    rw [List.append_nil]
    exact h.deleteVm ref name
  · rw [hlives, hstarts, heq]
    exact ⟨[⟨c.due o, name, w.next⟩], rfl, (h.startTimer (c.due o) name).deleteVm ref name⟩
  · rw [hlives, hstarts, heq]
    refine ⟨[⟨c.due o, name, w.next⟩], rfl, ?_⟩
    rw [if_pos rfl, List.append_nil]
    refine h.addMachine (m := c.machine o ref name w.next) rfl ?_ hlt
    exact Int.add_le_add_right c.timerStart_le _

theorem Grown.createVms (h : Grown w₀ new gone w) (o : Order) (host : Host) (names : List String) :
    ∃ more, more.map Timer.name = (host.reached names).filter (fun name => (host.creation name).starts) ∧
      Grown w₀ (new ++ more)
        (gone ++ ((host.reached names).filter fun name => !(host.creation name).lives).map (host.ref, ·))
        (createVms o host names w).2 := by
  induction names generalizing w new gone with
  | nil =>
      refine ⟨[], rfl, ?_⟩
      show Grown w₀ (new ++ []) (gone ++ []) w
      rwa [List.append_nil, List.append_nil]
  | cons name rest ih =>
      have hfst := createVm_fst o host.ref name (host.creation name) w
      rw [Xen.createVms, Host.reached, List.takeWhile_cons]
      rcases hexits : (host.creation name).exits with _ | _
      · obtain ⟨more, hmore, hgrown⟩ := h.createVm o host.ref name hexits
        rcases hres : Xen.createVm o host.ref name (host.creation name) w with ⟨_ | res, w'⟩ <;>
          rw [hres, hexits] at hfst
        · cases hfst
        rw [hres] at hgrown
        obtain ⟨later, hlater, hgrown'⟩ := ih hgrown
        rw [List.append_assoc, List.append_assoc] at hgrown'
        rw [Bool.not_false, if_pos rfl, List.filter_cons, List.filter_cons]
        refine ⟨more ++ later, ?_, ?_⟩
        · rw [List.map_append, hmore, hlater]
          rcases (host.creation name).starts with _ | _
          · rfl
          · rfl
        · dsimp only
          rcases hlives : (host.creation name).lives with _ | _ <;> rw [hlives] at hgrown'
          · exact hgrown'
          · exact hgrown'
      · rcases hres : Xen.createVm o host.ref name (host.creation name) w with ⟨_ | res, w'⟩ <;>
          rw [hres, hexits] at hfst
        · have hsame : w' = w := by
            rcases createVm_cases o host.ref name (host.creation name) w with ⟨-, -, -, heq⟩ | ⟨hno, -⟩ |
              ⟨hno, -⟩ | ⟨hno, -⟩
            · rw [heq] at hres
              exact (Prod.mk.inj hres).2.symm
            all_goals
              rw [hexits] at hno
              cases hno
          refine ⟨[], rfl, ?_⟩
          show Grown w₀ (new ++ []) (gone ++ []) w'
          rwa [List.append_nil, List.append_nil, hsame]
        · cases hfst

theorem Grown.deleteCharacters (h : Grown w₀ new gone w) (ref : ℕ) (name : String) :
    Grown w₀ new (gone ++ characters ref name) (w.deleteCharacters ref name) := by
  rw [World.deleteCharacters, characters]
  generalize name.toList = cs
  induction cs generalizing w gone with
  | nil => rwa [List.map_nil, List.append_nil]
  | cons c rest ih =>
      have hrest := ih (h.deleteVm ref (String.ofList [c]))
      rw [List.append_assoc] at hrest
      exact hrest

theorem Grown.checkVms (h : Grown w₀ new gone w) (checkvms : Bool) (host : Host) (names : List String) :
    Grown w₀ new (gone ++ (host.failing checkvms names).flatMap (characters host.ref))
      (checkVms checkvms host (names.map host.info) w).2 := by
  induction names generalizing w gone with
  | nil =>
      show Grown w₀ new (gone ++ []) w
      rwa [List.append_nil]
  | cons name rest ih =>
      rw [List.map_cons, Host.failing]
      rcases checkVms_cases checkvms host name (rest.map host.info) w with ⟨hlisted, heq⟩ |
        ⟨hlisted, hover, heq⟩ | ⟨hlisted, hover, ⟨-, hfails, ⟨herror, heq⟩ | ⟨herror, heq⟩⟩ | ⟨-, hfails, heq⟩⟩ <;>
          rw [heq, hlisted]
      · exact ih h
      · rw [if_neg (by decide), if_pos hover, List.flatMap_nil, List.append_nil]
        exact h
      · rw [if_neg (by decide), if_neg hover, if_pos hfails, if_pos herror, List.flatMap_cons, List.flatMap_nil,
          List.append_nil]
        exact h.deleteCharacters host.ref name
      · rw [if_neg (by decide), if_neg hover, if_pos hfails, if_neg herror, List.flatMap_cons, ← List.append_assoc]
        exact ih (h.deleteCharacters host.ref name)
      · rw [if_neg (by decide), if_neg hover, hfails]
        exact ih h

theorem Grown.makeCall (h : Grown w₀ new gone w) (o : Order) (checkvms : Bool) (call : Host × List String) :
    ∃ more, more.map Timer.name = call.1.started call.2 ∧
      Grown w₀ (new ++ more) (gone ++ call.1.deletions checkvms call.2) (makeCall o checkvms w call) := by
  obtain ⟨host, names⟩ := call
  rw [Xen.makeCall, createVmsSingleHost, Host.started, Host.deletions]
  dsimp only
  split
  case isFalse => exact ⟨[], rfl, by rwa [List.append_nil, List.append_nil]⟩
  obtain ⟨more, hmore, hgrown⟩ := h.createVms o host names
  have hfst := createVms_fst o host names w
  refine ⟨more, hmore, ?_⟩
  rw [← List.append_assoc]
  rcases hres : Xen.createVms o host names w with ⟨_ | infos, w'⟩ <;> rw [hres] at hgrown hfst
  · exact hgrown.mono (List.subset_append_left _ _)
  rcases hlogout : host.logoutRaises with _ | _
  case true => exact hgrown.mono (List.subset_append_left _ _)
  rcases hexits : names.any fun name => (host.creation name).exits with _ | _
  case true =>
    rw [if_pos hexits] at hfst
    cases hfst
  rw [if_neg (by rw [hexits]; exact Bool.false_ne_true)] at hfst
  obtain rfl := Option.some.inj hfst
  have hloop := hgrown.checkVms checkvms host names
  dsimp only
  rw [Bool.or_self, if_neg Bool.false_ne_true, if_neg Bool.false_ne_true]
  rcases hcheck : Xen.checkVms checkvms host (names.map host.info) w' with ⟨_ | kept, w''⟩ <;>
    rw [hcheck] at hloop
  · exact hloop
  · exact hloop

theorem Grown.calls (h : Grown w₀ new gone w) (o : Order) (checkvms : Bool) (calls : List (Host × List String)) :
    ∃ more, more.map Timer.name = calls.flatMap (fun call => call.1.started call.2) ∧
      Grown w₀ (new ++ more) (gone ++ calls.flatMap fun call => call.1.deletions checkvms call.2)
        (calls.foldl (Xen.makeCall o checkvms) w) := by
  induction calls generalizing w new gone with
  | nil => exact ⟨[], rfl, by rwa [List.flatMap_nil, List.append_nil, List.append_nil]⟩
  | cons call rest ih =>
      obtain ⟨more, hmore, hgrown⟩ := h.makeCall o checkvms call
      obtain ⟨later, hlater, hgrown'⟩ := ih hgrown
      rw [List.append_assoc, List.append_assoc] at hgrown'
      refine ⟨more ++ later, ?_, hgrown'⟩
      rw [List.map_append, hmore, hlater, List.flatMap_cons]

theorem Grown.releaseServers (h : Grown w₀ new gone w) (config : Config) (username : String) (count : Int) :
    Grown w₀ new (gone ++ config.refs ×ˢ generateVmNames username count)
      (releaseServers config username count w) := by
  rw [releaseServers_eq]
  exact
    { next_le := h.next_le
      timers := h.timers
      fresh := h.fresh
      timed := fun m hm => h.timed m (List.mem_of_mem_filter hm)
      unique := fun m hm m' hm' => h.unique m (List.mem_of_mem_filter hm) m' (List.mem_of_mem_filter hm')
      kept := by
        intro m hm
        rcases h.kept m hm with hkept | hgone
        · by_cases hdelete : m.ref ∈ config.refs ∧ m.name ∈ generateVmNames username count
          · exact Or.inr (List.mem_append_right _ (List.pair_mem_product.2 hdelete))
          · refine Or.inl (List.mem_filter.2 ⟨hkept, ?_⟩)
            rw [← Bool.decide_and, Bool.not_eq_true', decide_eq_false_iff_not]
            exact hdelete
        · exact Or.inr (List.mem_append_left _ hgone) }

/-- All that a request deletes, by host and name: with what it releases in the end. -/
def Request.targets (r : Request) : List (ℕ × String) :=
  r.deletions ++ if r.releases then r.config.refs ×ˢ r.vmNames else []

/-- **What a request leaves of VMs and timers.** -/
theorem grown_getserversService (r : Request) (w : World) :
    ∃ new, new.map Timer.name = r.started ∧ Grown w new r.targets (getserversService r w).2 := by
  obtain ⟨new, hnew, hgrown⟩ := (Grown.refl w).calls r.vmOrder r.checkvms r.calls
  rw [List.nil_append, List.nil_append] at hgrown
  refine ⟨new, hnew, ?_⟩
  rw [getserversService_snd, Request.targets]
  rcases hreleases : r.releases with _ | _
  · exact hgrown.mono (List.subset_append_left _ _)
  · exact hgrown.releaseServers r.config r.username r.count

end Xen

end DynVm

end TestInfra
