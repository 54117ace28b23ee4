import TestInfra.DynVm.Footprint

set_option autoImplicit false

/-! # How long a VM lives

A VM has an `expired_time`, which `setexpiry` changes and from which on the thread of `expire_vms` deletes
it. Next to it there is the timer that `create_vm` started: it is neither cancelled when the VM is released
nor set again by `setexpiry`, and it deletes whatever has the name of its VM by the time it fires. So does
the thread, of which `Service.expired` is what is left of its last query. `Service.Admits` says which
requests are safe.

Requests are taken one after the other; what a request creates and deletes again before it answers is not
seen here. -/

namespace TestInfra

namespace DynVm

namespace Xen

/-! ## The service -/

/-- `from` of a `setexpiry` request; anything but the first two is refused. -/
inductive FromReference where
  | now
  | created
  | other (text : String)

/-- The VMs and timers, the clock, and the names that `expire_vms` has yet to release. -/
structure Service where
  world : World
  now : Int
  expired : List String

inductive Event where
  | tick (seconds : ℕ)
  | getservers (r : Request)
  /-- With `count`, and whether `target_state` is `available`. -/
  | releaseservers (username : String) (count : Option Int) (available : Bool)
  | setexpiry (username : String) (expiresin : ℕ) (count : Option Int) (reference : FromReference)
  /-- A timer calls `release_servers`. -/
  | fire (t : Timer)
  /-- `get_expired`, once the loop over the last answer is through. -/
  | getExpired
  /-- The loop in `expire_vms` takes a name; the query has no order. -/
  | expire (name : String)

/-- `vm_count` of `releaseservers_service`. -/
def releaseCount (count : Option Int) (available : Bool) : Int :=
  count.getD (if available then 9 else 1)

/-- `names` of `setexpiry_service`. Unlike `generate_vm_names` it numbers a single VM as well. -/
def setexpiryNames (username : String) : Option Int → List String
  | some count => (List.range count.toNat).map fun i => username ++ toString (i + 1)
  | none => [username]

/-- `set_expired_to`; a request that is refused leaves the time as it is. -/
def setExpiredTo (now : Int) (expiresin : ℕ) (m : Machine) : FromReference → Int
  | .now => now + expiresin * 60
  | .created => m.createdTime + expiresin * 60
  | .other _ => m.expiredTime

/-- The update of `set_expired`. -/
def World.setExpired (names : List String) (time : Machine → Int) (w : World) : World :=
  { w with
    machines := w.machines.map fun m => if m.name ∈ names then { m with expiredTime := time m } else m
    fresh := by
      intro m hm
      obtain ⟨m', hm', rfl⟩ := List.mem_map.1 hm
      split
      · exact w.fresh m' hm'
      · exact w.fresh m' hm' }

def World.removeTimer (t : Timer) (w : World) : World := { w with timers := w.timers.erase t }

/-- A timer fires when it is due or later. -/
def Service.step (config : Config) (s : Service) : Event → Service
  | .tick seconds => { s with now := s.now + seconds }
  | .getservers r => { s with world := (getserversService r s.world).2 }
  | .releaseservers username count available =>
      { s with world := releaseServers config username (releaseCount count available) s.world }
  | .setexpiry username expiresin count reference =>
      { s with
        world := s.world.setExpired (setexpiryNames username count) fun m =>
          setExpiredTo s.now expiresin m reference }
  | .fire t =>
      if t ∈ s.world.timers ∧ t.due ≤ s.now then
        { s with world := (releaseServers config t.name 1 s.world).removeTimer t }
      else s
  | .getExpired =>
      if s.expired = [] then
        { s with
          expired := (s.world.machines.filter fun m => m.expiredTime < s.now).map Machine.name }
      else s
  | .expire name =>
      if name ∈ s.expired then
        { s with
          world := releaseServers config name 1 s.world
          expired := s.expired.erase name }
      else s

/-! ## What is asked of a run -/

/-- The VM is there before and not after. -/
def Deleted (s s' : Service) (m : Machine) : Prop :=
  m ∈ s.world.machines ∧ ∀ m' ∈ s'.world.machines, m'.uuid ≠ m.uuid

/-- **A VM goes by a `releaseservers` request of its user or when it has expired**, and a timer deletes no VM
    but the one that it was started for. -/
def Lawful (config : Config) (s : Service) (e : Event) : Prop :=
  ∀ m, Deleted s (s.step config e) m →
    ((∃ count available, e = .releaseservers m.user count available) ∨ m.expiredTime ≤ s.now) ∧
      ∀ t, e = .fire t → t.uuid = m.uuid

/-- Every step of the run is lawful. -/
def LawfulRun (config : Config) : Service → List Event → Prop
  | _, [] => True
  | s, e :: rest => Lawful config s e ∧ LawfulRun config (s.step config e) rest

/-! ## Which requests are safe -/

/-- No VM, no timer and no entry of `expired` has the name. -/
def Service.Free (s : Service) (name : String) : Prop :=
  (∀ m ∈ s.world.machines, m.name ≠ name) ∧ (∀ t ∈ s.world.timers, t.name ≠ name) ∧ name ∉ s.expired

/-- **What the steps of a run have to meet.** A `getservers` request starts timers for names that are free,
    each at most once, and whatever it deletes on its way has expired. What a `releaseservers` request finds
    under its names belongs to its user or has expired. A `setexpiry` request sets no time beyond the timer of
    the VM, nor a future one for a VM that `expire_vms` is about to release. -/
def Service.Admits (config : Config) (s : Service) : Event → Prop
  | .getservers r =>
      (∀ name ∈ r.started, s.Free name) ∧ r.started.Nodup ∧
        ∀ m ∈ s.world.machines, (m.ref, m.name) ∈ r.targets → m.expiredTime ≤ s.now
  | .releaseservers username count available =>
      ∀ m ∈ s.world.machines, m.ref ∈ config.refs →
        m.name ∈ generateVmNames username (releaseCount count available) →
          m.user = username ∨ m.expiredTime ≤ s.now
  | .setexpiry username expiresin count reference =>
      ∀ m ∈ s.world.machines, m.name ∈ setexpiryNames username count →
        (∀ t ∈ s.world.timers, t.name = m.name → setExpiredTo s.now expiresin m reference ≤ t.due) ∧
          (m.name ∈ s.expired → setExpiredTo s.now expiresin m reference ≤ s.now)
  | _ => True

/-- Every step of the run is admitted. -/
def AdmittedRun (config : Config) : Service → List Event → Prop
  | _, [] => True
  | s, e :: rest => s.Admits config e ∧ AdmittedRun config (s.step config e) rest

instance (s : Service) (name : String) : Decidable (s.Free name) :=
  inferInstanceAs (Decidable (_ ∧ _ ∧ _))

instance Service.decidableAdmits (config : Config) (s : Service) : (e : Event) → Decidable (s.Admits config e)
  | .getservers _ => inferInstanceAs (Decidable (_ ∧ _ ∧ _))
  | .releaseservers .. => inferInstanceAs (Decidable (∀ m ∈ s.world.machines, _ → _ → _ ∨ _))
  | .setexpiry .. => inferInstanceAs (Decidable (∀ m ∈ s.world.machines, _ → _ ∧ _))
  | .tick _ | .fire _ | .getExpired | .expire _ => inferInstanceAs (Decidable True)

instance decidableAdmittedRun (config : Config) :
    (s : Service) → (events : List Event) → Decidable (AdmittedRun config s events)
  | _, [] => inferInstanceAs (Decidable True)
  | s, e :: rest =>
      have := decidableAdmittedRun config (s.step config e) rest
      inferInstanceAs (Decidable (_ ∧ _))

/-- The service right after its start: there are no timers, and no two VMs on the hosts have the same name. -/
structure Service.Starts (s : Service) : Prop where
  names : ∀ m ∈ s.world.machines, ∀ m' ∈ s.world.machines, m.name = m'.name → m = m'
  timers : s.world.timers = []
  expired : s.expired = []

/-! ## The invariant -/

/-- A name has one VM, every timer of the name is its timer and not due before the VM expires, and what
    `expire_vms` is about to release has expired. -/
structure Service.Inv (s : Service) : Prop where
  names : ∀ m ∈ s.world.machines, ∀ m' ∈ s.world.machines, m.name = m'.name → m = m'
  timers : ∀ t ∈ s.world.timers, ∀ m ∈ s.world.machines, m.name = t.name →
    t.uuid = m.uuid ∧ m.expiredTime ≤ t.due
  expired : ∀ name ∈ s.expired, ∀ m ∈ s.world.machines, m.name = name → m.expiredTime ≤ s.now

theorem Service.Starts.inv {s : Service} (h : s.Starts) : s.Inv where
  names := h.names
  timers := by
    intro t ht
    rw [h.timers] at ht
    cases ht
  expired := by
    intro name hname
    rw [h.expired] at hname
    cases hname

/-- Fewer VMs, timers and entries later. -/
theorem Service.Inv.subset {s s' : Service} (h : s.Inv) (hmachines : s'.world.machines ⊆ s.world.machines)
    (htimers : s'.world.timers ⊆ s.world.timers) (hexpired : s'.expired ⊆ s.expired) (hnow : s.now ≤ s'.now) :
    s'.Inv where
  names := fun m hm m' hm' => h.names m (hmachines hm) m' (hmachines hm')
  timers := fun t ht m hm => h.timers t (htimers ht) m (hmachines hm)
  expired := fun name hname m hm heq => (h.expired name (hexpired hname) m (hmachines hm) heq).trans hnow

theorem machines_releaseServers_subset (config : Config) (username : String) (count : Int) (w : World) :
    (releaseServers config username count w).machines ⊆ w.machines := by
  rw [releaseServers_eq]
  exact fun m hm => List.mem_of_mem_filter hm

/-- What `release_servers` deletes has one of its names. -/
theorem name_mem_of_deleted {s s' : Service} {config : Config} {username : String} {count : Int}
    (h : s'.world.machines = (releaseServers config username count s.world).machines) {m : Machine}
    (hm : Deleted s s' m) : m.ref ∈ config.refs ∧ m.name ∈ generateVmNames username count := by
  by_contra hno
  refine hm.2 m ?_ rfl
  rw [h, releaseServers_eq]
  refine List.mem_filter.2 ⟨hm.1, ?_⟩
  rw [← Bool.decide_and, Bool.not_eq_true', decide_eq_false_iff_not]
  exact hno

theorem not_deleted_self (s : Service) (m : Machine) : ¬ Deleted s s m :=
  fun h => h.2 m h.1 rfl

/-! ## One step -/

variable {config : Config} {s : Service}

/-- The VMs of a request do not meet those that were there before. -/
theorem Service.Inv.getservers (h : s.Inv) {r : Request} (hadmits : s.Admits config (.getservers r)) :
    (s.step config (.getservers r)).Inv := by
  obtain ⟨hfree, hnod, -⟩ := hadmits
  obtain ⟨new, hnew, hgrown⟩ := grown_getserversService r s.world
  have hnewFree : ∀ t ∈ new, s.Free t.name := by
    intro t ht
    exact hfree t.name (hnew ▸ List.mem_map_of_mem ht)
  have hsame : ∀ t ∈ new, ∀ t' ∈ new, t.name = t'.name → t = t' := by
    rw [← hnew] at hnod
    exact fun t ht t' ht' heq => List.inj_on_of_nodup_map hnod ht ht' heq
  refine ⟨?_, ?_, ?_⟩
  · intro m hm m' hm' heq
    rcases hgrown.timed m hm with hold | ⟨t, ht, hname, huuid, -⟩ <;>
      rcases hgrown.timed m' hm' with hold' | ⟨t', ht', hname', huuid', -⟩
    · exact h.names m hold m' hold' heq
    · exact absurd (heq.trans hname'.symm) ((hnewFree t' ht').1 m hold)
    · exact absurd (heq.symm.trans hname.symm) ((hnewFree t ht).1 m' hold')
    · obtain rfl := hsame t ht t' ht' (by rw [hname, hname', heq])
      exact hgrown.unique m hm m' hm' (huuid ▸ hgrown.fresh t ht) (huuid.symm.trans huuid')
  · intro t ht m hm heq
    change t ∈ (getserversService r s.world).2.timers at ht
    rw [hgrown.timers, List.mem_append] at ht
    rcases ht with ht | ht <;> rcases hgrown.timed m hm with hold | ⟨t', ht', hname', huuid', hdue'⟩
    · exact h.timers t ht m hold heq
    · exact absurd (heq.symm.trans hname'.symm) ((hnewFree t' ht').2.1 t ht)
    · exact absurd heq ((hnewFree t ht).1 m hold)
    · obtain rfl := hsame t ht t' ht' (by rw [hname', heq])
      exact ⟨huuid', hdue'⟩
  · intro name hname m hm heq
    rcases hgrown.timed m hm with hold | ⟨t', ht', hname', -⟩
    · exact h.expired name hname m hold heq
    · refine absurd ?_ (hnewFree t' ht').2.2
      rw [hname', heq]
      exact hname

theorem Service.Inv.setexpiry (h : s.Inv) {username : String} {expiresin : ℕ} {count : Option Int}
    {reference : FromReference} (hadmits : s.Admits config (.setexpiry username expiresin count reference)) :
    (s.step config (.setexpiry username expiresin count reference)).Inv := by
  refine ⟨?_, ?_, ?_⟩
  · intro m hm m' hm' heq
    obtain ⟨m₁, hm₁, rfl⟩ := List.mem_map.1 hm
    obtain ⟨m₂, hm₂, rfl⟩ := List.mem_map.1 hm'
    have hname : m₁.name = m₂.name := by
      split at heq <;> split at heq <;> exact heq
    rw [h.names m₁ hm₁ m₂ hm₂ hname]
  · intro t ht m hm heq
    obtain ⟨m₁, hm₁, rfl⟩ := List.mem_map.1 hm
    dsimp only at heq ⊢
    split at heq
    · next hmem =>
        rw [if_pos hmem]
        exact ⟨(h.timers t ht m₁ hm₁ heq).1, (hadmits m₁ hm₁ hmem).1 t ht heq.symm⟩
    · next hmem =>
        rw [if_neg hmem]
        exact h.timers t ht m₁ hm₁ heq
  · intro name hname m hm heq
    obtain ⟨m₁, hm₁, rfl⟩ := List.mem_map.1 hm
    dsimp only at heq ⊢
    split at heq
    · next hmem =>
        rw [if_pos hmem]
        exact (hadmits m₁ hm₁ hmem).2 (heq.symm ▸ hname)
    · next hmem =>
        rw [if_neg hmem]
        exact h.expired name hname m₁ hm₁ heq

/-- **The invariant holds after a step that is admitted.** -/
theorem Service.Inv.step (h : s.Inv) {e : Event} (hadmits : s.Admits config e) : (s.step config e).Inv := by
  cases e with
  | tick seconds =>
      exact h.subset (List.Subset.refl _) (List.Subset.refl _) (List.Subset.refl _)
        (Int.le_add_of_nonneg_right (Int.natCast_nonneg seconds))
  | getservers r => exact h.getservers hadmits
  | releaseservers username count available =>
      refine h.subset (machines_releaseServers_subset config _ _ _) ?_ (List.Subset.refl _) (Int.le_refl _)
      rw [Service.step, releaseServers_eq]
      exact List.Subset.refl _
  | setexpiry username expiresin count reference => exact h.setexpiry hadmits
  | fire t =>
      rw [Service.step]
      split
      · refine h.subset (machines_releaseServers_subset config _ _ _) ?_ (List.Subset.refl _) (Int.le_refl _)
        rw [releaseServers_eq]
        exact List.erase_subset
      · exact h
  | getExpired =>
      rw [Service.step]
      split
      · refine ⟨h.names, h.timers, ?_⟩
        intro name hname m hm heq
        obtain ⟨m', hm', rfl⟩ := List.mem_map.1 hname
        rw [List.mem_filter] at hm'
        rw [h.names m hm m' hm'.1 heq]
        exact (of_decide_eq_true hm'.2).le
      · exact h
  | expire name =>
      rw [Service.step]
      split
      · refine h.subset (machines_releaseServers_subset config _ _ _) ?_ List.erase_subset (Int.le_refl _)
        rw [releaseServers_eq]
        exact List.Subset.refl _
      · exact h

/-- **A step that is admitted is lawful.** -/
theorem Service.Inv.lawful (h : s.Inv) {e : Event} (hadmits : s.Admits config e) : Lawful config s e := by
  intro m hm
  cases e with
  | tick seconds => exact absurd hm.2 (fun hne => hne m hm.1 rfl)
  | getservers r =>
      obtain ⟨new, -, hgrown⟩ := grown_getserversService r s.world
      rcases hgrown.kept m hm.1 with hkept | hgone
      · exact absurd rfl (hm.2 m hkept)
      · exact ⟨Or.inr (hadmits.2.2 m hm.1 hgone), fun _ he => nomatch he⟩
  | releaseservers username count available =>
      obtain ⟨href, hname⟩ := name_mem_of_deleted rfl hm
      refine ⟨?_, fun _ he => nomatch he⟩
      rcases hadmits m hm.1 href hname with rfl | hexpired
      · exact Or.inl ⟨count, available, rfl⟩
      · exact Or.inr hexpired
  | setexpiry username expiresin count reference =>
      refine absurd ?_ (hm.2 _ (List.mem_map_of_mem hm.1))
      split
      · rfl
      · rfl
  | fire t =>
      rw [Service.step] at hm
      split at hm
      · next hfires =>
          obtain ⟨-, hname⟩ := name_mem_of_deleted rfl hm
          obtain ⟨huuid, hdue⟩ := h.timers t hfires.1 m hm.1 (List.mem_singleton.1 hname)
          refine ⟨Or.inr (hdue.trans hfires.2), ?_⟩
          rintro _ ⟨⟩
          exact huuid
      · exact absurd hm (not_deleted_self s m)
  | getExpired =>
      rw [Service.step] at hm
      split at hm
      · exact absurd hm.2 (fun hne => hne m hm.1 rfl)
      · exact absurd hm (not_deleted_self s m)
  | expire name =>
      rw [Service.step] at hm
      split at hm
      · next hexpires =>
          obtain ⟨-, hname⟩ := name_mem_of_deleted rfl hm
          exact ⟨Or.inr (h.expired name hexpires m hm.1 (List.mem_singleton.1 hname)), fun _ he => nomatch he⟩
      · exact absurd hm (not_deleted_self s m)

/-! ## Whole runs -/

theorem Service.Inv.run (h : s.Inv) {events : List Event} (hadmitted : AdmittedRun config s events) :
    LawfulRun config s events := by
  induction events generalizing s with
  | nil => trivial
  | cons e rest ih => exact ⟨h.lawful hadmitted.1, ih (h.step hadmitted.1) hadmitted.2⟩

/-- **In every run whose steps are admitted a VM lives until it expires or its user releases it**, and no timer
    deletes the VM of another. -/
theorem lives_until_expiry (config : Config) {s : Service} (hstarts : s.Starts) {events : List Event}
    (hadmitted : AdmittedRun config s events) : LawfulRun config s events :=
  hstarts.inv.run hadmitted

/-- A service with one host. -/
def oneHost : Config := ⟨[1], by decide, 1440⟩

/-- It has just been started. -/
def idle : Service := ⟨⟨[], [], 0, fun _ h => nomatch h⟩, 0, []⟩

theorem idle_starts : idle.Starts := ⟨fun _ h => (nomatch h), rfl, rfl⟩

/-- A VM for so many minutes, created at this time. -/
def oneVm (exp time : Int) : Request :=
  { sshFails with
    config := oneHost
    exp := exp
    xhost_mem := by rintro _ ⟨⟩
    hosts := some [(1, creates 1 time true)]
    hosts_mem := by
      rintro _ ⟨⟩ _ hh
      rw [List.mem_singleton.1 hh]
      exact List.mem_cons_self
    hosts_nodup := by
      rintro _ ⟨⟩
      exact List.nodup_singleton 1 }

/-- A VM whose time is cut short, released by `expire_vms`, and another one once the timer has fired. -/
theorem lives_until_expiry_shortened :
    LawfulRun oneHost idle
      [.getservers (oneVm 60 0), .setexpiry "qe" 10 none .now, .tick 700, .getExpired, .expire "qe",
        .tick 3000, .fire ⟨3600, "qe", 0⟩, .getservers (oneVm 10 3700)] :=
  lives_until_expiry oneHost idle_starts (by decide +kernel)

/-- The timer of a VM that was released deletes the next VM of its name, 51 minutes early. -/
theorem timer_deletes_next :
    ¬ LawfulRun oneHost idle
      [.getservers (oneVm 10 0), .tick 60, .releaseservers "qe" none false, .getservers (oneVm 60 60),
        .tick 540, .fire ⟨600, "qe", 0⟩] := by
  rintro ⟨-, -, -, -, -, hlawful, -⟩
  obtain ⟨hcause, -⟩ := hlawful ⟨1, "qe", 1, "qe", 60, 3660⟩ ⟨by decide +kernel, by decide +kernel⟩
  rcases hcause with ⟨_, _, he⟩ | hexpired
  · cases he
  · exact absurd hexpired (by decide +kernel)

end Xen

end DynVm

end TestInfra
