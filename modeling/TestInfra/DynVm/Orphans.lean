import TestInfra.DynVm.Reservations
import TestInfra.DynVm.Xen
import TestInfra.Lib.PyText
import Mathlib.Data.List.Perm.Lattice
import Mathlib.Data.List.TakeWhile

set_option autoImplicit false

/-! # VMs that nobody has

A VM that a `getservers` request has created should be in its answer or be gone. It is neither when the
call of `create_vms_single_host` that created it raises, or passes it over: a VM that fails its check is
not deleted unless its name is a single character, and the request goes on to create another one of the
same name on the next host. `Request.Clean` says when this does not happen. -/

namespace TestInfra

namespace DynVm

namespace Xen

/-! ## The VMs of a request -/

/-- The VMs with a `uuid` from `n` on, by host and name. -/
def World.since (n : ℕ) (w : World) : List (ℕ × String) :=
  (w.machines.filter fun m => n ≤ m.uuid).map fun m => (m.ref, m.name)

theorem since_next (w : World) : w.since w.next = [] := by
  rw [World.since, List.map_eq_nil_iff, List.filter_eq_nil_iff]
  intro m hm hle
  exact absurd (of_decide_eq_true hle) (Nat.not_le.2 (w.fresh m hm))

/-- Deleting from the machines what has a host and name of some kind deletes these. -/
theorem map_filter_machines (n : ℕ) (machines : List Machine) (p : ℕ × String → Bool) :
    ((machines.filter fun m => p (m.ref, m.name)).filter fun m => n ≤ m.uuid).map
        (fun m => (m.ref, m.name)) =
      ((machines.filter fun m => n ≤ m.uuid).map fun m => (m.ref, m.name)).filter p := by
  rw [List.filter_map, List.filter_filter, List.filter_filter]
  congr 2
  funext m
  exact Bool.and_comm _ _

theorem since_deleteVm (n ref : ℕ) (name : String) (w : World) :
    (w.deleteVm ref name).since n = (w.since n).filter fun p => !(p.1 = ref && p.2 = name) :=
  map_filter_machines n w.machines fun p => !(p.1 = ref && p.2 = name)

theorem since_deleteVm_of_not_mem {n ref : ℕ} {name : String} {w : World} (h : (ref, name) ∉ w.since n) :
    (w.deleteVm ref name).since n = w.since n := by
  rw [since_deleteVm, List.filter_eq_self]
  rintro ⟨ref', name'⟩ hmem
  rw [Bool.not_eq_true', Bool.and_eq_false_iff, decide_eq_false_iff_not, decide_eq_false_iff_not]
  by_contra hboth
  rw [not_or, not_not, not_not] at hboth
  obtain ⟨rfl, rfl⟩ := hboth
  exact h hmem

theorem since_addMachine {n : ℕ} {m : Machine} {w : World} (h : m.uuid < w.next) (hn : n ≤ m.uuid) :
    (w.addMachine m h).since n = w.since n ++ [(m.ref, m.name)] := by
  simp only [World.since, World.addMachine, List.filter_append, List.map_append]
  rw [List.filter_cons_of_pos (by simpa using hn)]
  rfl

/-! ## What a host does with a name -/

/-- `vm_ip_addr` and `error` of the call. -/
def Creation.result (c : Creation) : Option String × String :=
  match c.address with
  | .error res => res
  | .ok ip => (some ip, (c.recordRaises.or c.saveRaises).getD "")

/-- The call leaves a VM. -/
def Creation.lives (c : Creation) : Bool :=
  !c.exits && c.address.isOk && c.recordRaises.isNone && c.saveRaises.isNone

/-- A VM that lives has been created without an error. -/
theorem Creation.error_of_lives {c : Creation} (h : c.lives = true) : c.result.2 = "" := by
  simp only [Creation.lives, Bool.and_eq_true, Option.isNone_iff_eq_none] at h
  obtain ⟨⟨⟨-, haddress⟩, hrecord⟩, hsave⟩ := h
  rcases heq : c.address with res | ip
  · rw [heq] at haddress
    cases haddress
  · rw [Creation.result, heq, hrecord, hsave]
    rfl

/-- The call starts the timer of the VM. -/
def Creation.starts (c : Creation) : Bool := !c.exits && c.address.isOk && c.recordRaises.isNone

/-- The VM that the call leaves, with the `uuid` it gets. -/
def Creation.machine (o : Order) (ref : ℕ) (name : String) (c : Creation) (uuid : ℕ) : Machine :=
  ⟨ref, name, uuid, o.user, c.provEndTime, c.provEndTime + o.expiry * 60⟩

/-- When its timer is due. -/
def Creation.due (o : Order) (c : Creation) : Int := c.timerStart + o.expiry * 60

/-- **The four ways of `create_vm`**: `sys.exit`, an exception before the timer is started or after it, and a
    new VM. -/
theorem createVm_cases (o : Order) (ref : ℕ) (name : String) (c : Creation) (w : World) :
    (c.exits = true ∧ c.lives = false ∧ c.starts = false ∧ createVm o ref name c w = (none, w)) ∨
      (c.exits = false ∧ c.lives = false ∧ c.starts = false ∧
        createVm o ref name c w = (some c.result, w.deleteVm ref name)) ∨
      (c.exits = false ∧ c.lives = false ∧ c.starts = true ∧
        createVm o ref name c w = (some c.result, (w.startTimer (c.due o) name).deleteVm ref name)) ∨
      (c.exits = false ∧ c.lives = true ∧ c.starts = true ∧
        ∃ h, createVm o ref name c w =
          (some c.result, (w.startTimer (c.due o) name).addMachine (c.machine o ref name w.next) h)) := by
  rcases hexits : c.exits with _ | _
  case true =>
    left
    simp [createVm, Creation.lives, Creation.starts, hexits]
  rcases haddress : c.address with res | ip
  · right; left
    simp [createVm, Creation.lives, Creation.starts, Creation.result, hexits, haddress, Except.isOk,
      Except.toBool]
  rcases hrecord : c.recordRaises with _ | error
  case some =>
    right; left
    simp [createVm, Creation.lives, Creation.starts, Creation.result, hexits, haddress, hrecord]
  rcases hsave : c.saveRaises with _ | error
  · right; right; right
    simp only [createVm, Creation.lives, Creation.starts, Creation.result, hexits, haddress, hrecord, hsave]
    exact ⟨trivial, rfl, rfl, Nat.lt_succ_self _, rfl⟩
  · right; right; left
    simp [createVm, Creation.lives, Creation.starts, Creation.result, Creation.due, hexits, haddress,
      hrecord, hsave, Except.isOk, Except.toBool]

theorem createVm_fst (o : Order) (ref : ℕ) (name : String) (c : Creation) (w : World) :
    (createVm o ref name c w).1 = if c.exits then none else some c.result := by
  rcases createVm_cases o ref name c w with ⟨hexits, -, -, h⟩ | ⟨hexits, -, -, h⟩ | ⟨hexits, -, -, h⟩ |
    ⟨hexits, -, -, _, h⟩ <;> rw [h, hexits] <;> rfl

theorem next_le_createVm (o : Order) (ref : ℕ) (name : String) (c : Creation) (w : World) :
    w.next ≤ (createVm o ref name c w).2.next := by
  rcases createVm_cases o ref name c w with ⟨-, -, -, h⟩ | ⟨-, -, -, h⟩ | ⟨-, -, -, h⟩ |
    ⟨-, -, -, _, h⟩
  · rw [h]
  · rw [h]
    exact Nat.le_refl w.next
  · rw [h]
    exact Nat.le_succ w.next
  · rw [h]
    exact Nat.le_succ w.next

/-- **What `create_vm` leaves of the VMs of the request**, if it has none of that name on the host yet. -/
theorem since_createVm {n : ℕ} (o : Order) {ref : ℕ} {name : String} (c : Creation) {w : World}
    (hn : n ≤ w.next) (hnew : (ref, name) ∉ w.since n) :
    (createVm o ref name c w).2.since n = w.since n ++ if c.lives then [(ref, name)] else [] := by
  have hstarted : ∀ due, (ref, name) ∉ (w.startTimer due name).since n := fun _ => hnew
  rcases createVm_cases o ref name c w with ⟨-, hlives, -, h⟩ | ⟨-, hlives, -, h⟩ | ⟨-, hlives, -, h⟩ |
    ⟨-, hlives, -, hlt, h⟩
  · rw [h, hlives]
    exact (List.append_nil _).symm
  · rw [h, hlives, since_deleteVm_of_not_mem hnew]
    exact (List.append_nil _).symm
  · rw [h, hlives, since_deleteVm_of_not_mem (hstarted _)]
    exact (List.append_nil _).symm
  · rw [h, hlives]
    exact since_addMachine hlt hn

/-! ## One call of `create_vms_single_host` -/

/-- The names for which `create_vm` is called. -/
def Host.reached (host : Host) (names : List String) : List String :=
  names.takeWhile fun name => !(host.creation name).exits

/-- What the reservation sees of the host. -/
def Host.reserve (host : Host) : DynVm.Host where
  labels := none
  overprovisioned := host.overprovisioned
  opens := host.opens
  vm := fun name =>
    ⟨(host.creation name).exits, (host.creation name).result.1, (host.creation name).result.2,
      host.sshOk name, host.overprovisionedAt name⟩
  logoutRaises := host.logoutRaises

/-- The entry of a name in `new_vms_info`. -/
def Host.info (host : Host) (name : String) : String × Option String × String :=
  (name, (host.creation name).result)

/-- The loop of `create_vms_single_host` raises at the VM: the check of the host does, or the VM is deleted
    and has no error yet. -/
def Host.raisesAt (checkvms : Bool) (host : Host) (name : String) : Bool :=
  host.reserve.listed name && (host.overprovisionedAt name = none ||
    host.reserve.fails checkvms name && (host.creation name).result.2 = "")

/-- The loop keeps the VM. -/
def Host.keeps (checkvms : Bool) (host : Host) (name : String) : Bool :=
  host.reserve.listed name && host.reserve.passes checkvms name

theorem createVms_fst (o : Order) (host : Host) (names : List String) (w : World) :
    (createVms o host names w).1 =
      if (names.any fun name => (host.creation name).exits) = true then none else some (names.map host.info) := by
  induction names generalizing w with
  | nil => rfl
  | cons name rest ih =>
      have hfst := createVm_fst o host.ref name (host.creation name) w
      rw [createVms, List.any_cons]
      rcases hexits : (host.creation name).exits with _ | _ <;> rw [hexits] at hfst <;>
        rcases hres : createVm o host.ref name (host.creation name) w with ⟨_ | res, w'⟩ <;>
          rw [hres] at hfst <;> cases hfst
      · dsimp only
        rw [ih, Bool.false_or]
        split
        · rfl
        · rfl
      · rfl

theorem createVms_snd {n : ℕ} (o : Order) (host : Host) {names : List String} (hnod : names.Nodup) {w : World}
    (hn : n ≤ w.next) (hnew : ∀ name ∈ names, (host.ref, name) ∉ w.since n) :
    (createVms o host names w).2.since n = w.since n ++
        ((host.reached names).filter fun name => (host.creation name).lives).map (host.ref, ·) ∧
      n ≤ (createVms o host names w).2.next := by
  induction names generalizing w with
  | nil => exact ⟨(List.append_nil _).symm, hn⟩
  | cons name rest ih =>
      rw [List.nodup_cons] at hnod
      have hsince := since_createVm o (host.creation name) hn (hnew name List.mem_cons_self)
      have hnext := hn.trans (next_le_createVm o host.ref name (host.creation name) w)
      have hfst := createVm_fst o host.ref name (host.creation name) w
      rw [Host.reached, List.takeWhile_cons]
      rcases hexits : (host.creation name).exits with _ | _
      · rcases hres : createVm o host.ref name (host.creation name) w with ⟨_ | res, w'⟩ <;>
          rw [hres, hexits] at hfst
        · cases hfst
        rw [hres] at hsince hnext
        have hrest : ∀ name' ∈ rest, (host.ref, name') ∉ w'.since n := by
          intro name' hmem hin
          rw [hsince, List.mem_append] at hin
          rcases hin with hin | hin
          · exact hnew name' (List.mem_cons_of_mem _ hmem) hin
          · split at hin
            · obtain rfl : name' = name := (Prod.mk.inj (List.mem_singleton.1 hin)).2
              exact hnod.1 hmem
            · cases hin
        obtain ⟨ihsince, ihnext⟩ := ih hnod.2 hnext hrest
        rw [createVms, hres]
        refine ⟨?_, ihnext⟩
        dsimp only
        rw [ihsince, hsince, List.append_assoc, Bool.not_false, if_pos rfl]
        rcases hlives : (host.creation name).lives with _ | _
        · rw [List.filter_cons_of_neg (by simp [hlives])]
          rfl
        · rw [List.filter_cons_of_pos (by simp [hlives])]
          rfl
      · rcases hres : createVm o host.ref name (host.creation name) w with ⟨_ | res, w'⟩ <;>
          rw [hres, hexits] at hfst
        · rw [hres, Creation.lives, hexits] at hsince
          rw [hres] at hnext
          rw [createVms, hres]
          exact ⟨hsince, hnext⟩
        · cases hfst

/-- A VM whose host can be checked passes or fails. -/
theorem passes_fails (checkvms : Bool) {host : DynVm.Host} {name : String} {overprovisioned : Bool}
    (h : (host.vm name).overprovisioned = some overprovisioned) :
    host.passes checkvms name = !(checkvms && !(host.vm name).sshOk || overprovisioned) ∧
      host.fails checkvms name = (checkvms && !(host.vm name).sshOk || overprovisioned) := by
  rw [DynVm.Host.passes, DynVm.Host.fails, h]
  rcases overprovisioned with _ | _
  · simp
  · simp

/-- **The five ways of the loop with a VM**: it passes it over, the check of the host raises, it deletes the VM
    and raises or goes on, or it keeps it. -/
theorem checkVms_cases (checkvms : Bool) (host : Host) (name : String) (infos : List (String × Option String × String))
    (w : World) :
    (host.reserve.listed name = false ∧
        checkVms checkvms host (host.info name :: infos) w = checkVms checkvms host infos w) ∨
      (host.reserve.listed name = true ∧ host.overprovisionedAt name = none ∧
        checkVms checkvms host (host.info name :: infos) w = (none, w)) ∨
      (host.reserve.listed name = true ∧ host.overprovisionedAt name ≠ none ∧
        ((host.reserve.passes checkvms name = false ∧ host.reserve.fails checkvms name = true ∧
            (((host.creation name).result.2 = "" ∧
                checkVms checkvms host (host.info name :: infos) w = (none, w.deleteCharacters host.ref name)) ∨
              ((host.creation name).result.2 ≠ "" ∧
                checkVms checkvms host (host.info name :: infos) w =
                  checkVms checkvms host infos (w.deleteCharacters host.ref name)))) ∨
          (host.reserve.passes checkvms name = true ∧ host.reserve.fails checkvms name = false ∧
            checkVms checkvms host (host.info name :: infos) w =
              ((checkVms checkvms host infos w).1.map (name :: ·), (checkVms checkvms host infos w).2)))) := by
  rw [Host.info, checkVms]
  by_cases hskip : (name.endsWith "_error" || decide ((host.creation name).result.1 = some "")) = true
  · left
    rw [DynVm.Host.listed, if_pos hskip, Bool.not_eq_false']
    exact ⟨hskip, rfl⟩
  have hlisted : host.reserve.listed name = true := by
    rw [DynVm.Host.listed, Bool.not_eq_true', ← Bool.not_eq_true]
    exact hskip
  rw [if_neg hskip]
  right
  rcases hover : host.overprovisionedAt name with _ | overprovisioned
  · exact Or.inl ⟨hlisted, rfl, rfl⟩
  have hvm : (host.reserve.vm name).overprovisioned = some overprovisioned := hover
  obtain ⟨hpasses, hfails⟩ := passes_fails checkvms hvm
  have hssh : (host.reserve.vm name).sshOk = host.sshOk name := rfl
  right
  refine ⟨hlisted, Option.some_ne_none _, ?_⟩
  rw [hpasses, hfails, hssh]
  dsimp only
  rcases hbad : (checkvms && !host.sshOk name || overprovisioned) with _ | _
  · exact Or.inr ⟨rfl, rfl, rfl⟩
  · refine Or.inl ⟨rfl, rfl, ?_⟩
    by_cases herror : (host.creation name).result.2 = ""
    · exact Or.inl ⟨herror, if_pos herror⟩
    · exact Or.inr ⟨herror, if_neg herror⟩

theorem checkVms_fst (checkvms : Bool) (host : Host) (names : List String) (w : World) :
    (checkVms checkvms host (names.map host.info) w).1 =
      if names.any (host.raisesAt checkvms) = true then none
      else some (names.filter (host.keeps checkvms)) := by
  induction names generalizing w with
  | nil => rfl
  | cons name rest ih =>
      rw [List.map_cons, List.any_cons, List.filter_cons, Host.raisesAt, Host.keeps]
      rcases checkVms_cases checkvms host name (rest.map host.info) w with ⟨hlisted, heq⟩ |
        ⟨hlisted, hover, heq⟩ | ⟨hlisted, hover, ⟨hpasses, hfails, ⟨herror, heq⟩ | ⟨herror, heq⟩⟩ |
          ⟨hpasses, hfails, heq⟩⟩
      · simp [heq, ih, hlisted]
      · simp [heq, hlisted, hover]
      · simp [heq, hlisted, hfails, herror]
      · simp [heq, ih, hlisted, hover, hpasses, herror]
      · rw [heq, ih]
        simp only [hlisted, hover, hpasses, hfails, decide_false, Bool.false_or, Bool.false_and, Bool.and_false,
          Bool.and_self, if_true]
        split
        · rfl
        · rfl

/-- With longer names the deletions by characters reach none of the VMs of the request. -/
theorem since_deleteCharacters {n : ℕ} {ref : ℕ} (name : String) {w : World}
    (hlong : ∀ p ∈ w.since n, p.1 = ref → p.2.toList.length ≠ 1) :
    (w.deleteCharacters ref name).since n = w.since n := by
  rw [World.deleteCharacters]
  generalize name.toList = cs
  induction cs generalizing w with
  | nil => rfl
  | cons c rest ih =>
      have hsame : (w.deleteVm ref (String.ofList [c])).since n = w.since n := by
        refine since_deleteVm_of_not_mem ?_
        intro hmem
        exact hlong _ hmem rfl (by rw [String.toList_ofList]; rfl)
      rw [List.foldl_cons, ih (by rw [hsame]; exact hlong), hsame]

theorem next_deleteCharacters (ref : ℕ) (name : String) (w : World) :
    (w.deleteCharacters ref name).next = w.next := by
  rw [World.deleteCharacters]
  generalize name.toList = cs
  induction cs generalizing w with
  | nil => rfl
  | cons c rest ih => exact ih _

theorem checkVms_snd {n : ℕ} (checkvms : Bool) (host : Host) (names : List String)
    {w : World} (hlong : ∀ p ∈ w.since n, p.1 = host.ref → p.2.toList.length ≠ 1) :
    (checkVms checkvms host (names.map host.info) w).2.since n = w.since n := by
  induction names generalizing w with
  | nil => rfl
  | cons name rest ih =>
      have hdelete := since_deleteCharacters name hlong
      rw [List.map_cons]
      rcases checkVms_cases checkvms host name (rest.map host.info) w with ⟨-, heq⟩ | ⟨-, -, heq⟩ |
        ⟨-, -, ⟨-, -, ⟨-, heq⟩ | ⟨-, heq⟩⟩ | ⟨-, -, heq⟩⟩ <;> rw [heq]
      · exact ih hlong
      · exact hdelete
      · rw [ih (by rw [hdelete]; exact hlong), hdelete]
      · exact ih hlong

theorem next_checkVms (checkvms : Bool) (host : Host) (names : List String) (w : World) :
    (checkVms checkvms host (names.map host.info) w).2.next = w.next := by
  induction names generalizing w with
  | nil => rfl
  | cons name rest ih =>
      rw [List.map_cons]
      rcases checkVms_cases checkvms host name (rest.map host.info) w with ⟨-, heq⟩ | ⟨-, -, heq⟩ |
        ⟨-, -, ⟨-, -, ⟨-, heq⟩ | ⟨-, heq⟩⟩ | ⟨-, -, heq⟩⟩ <;> rw [heq]
      · exact ih w
      · exact next_deleteCharacters host.ref name w
      · exact (ih _).trans (next_deleteCharacters host.ref name w)
      · exact ih w

/-- The deletion by characters reaches the VM. -/
def Host.deletes (checkvms : Bool) (host : Host) (name : String) : Bool :=
  !host.logoutRaises && name.toList.length = 1 && host.reserve.listed name &&
    host.reserve.fails checkvms name

/-- The names whose VMs a call leaves on the host. -/
def Host.leaves (checkvms : Bool) (host : Host) (names : List String) : List String :=
  if host.overprovisioned = some false && host.opens then
    (host.reached names).filter fun name =>
      (host.creation name).lives && !host.deletes checkvms name
  else []

/-- How a call ends, from the answers of the host. -/
def Host.ends (checkvms : Bool) (host : Host) (names : List String) : Attempt :=
  if host.overprovisioned = some false && host.opens then
    if host.logoutRaises then .raised
    else if names.any fun name => (host.creation name).exits then .exited
    else if names.any (host.raisesAt checkvms) then .raised
    else .returned (names.filter (host.keeps checkvms))
  else .raised

theorem reached_eq_self {host : Host} {names : List String}
    (h : ¬ (names.any fun name => (host.creation name).exits) = true) : host.reached names = names := by
  rw [Host.reached, List.takeWhile_eq_self_iff]
  intro name hmem
  rw [Bool.not_eq_true']
  by_contra hexits
  rw [Bool.not_eq_false] at hexits
  exact h (List.any_eq_true.2 ⟨name, hmem, hexits⟩)

theorem createVmsSingleHost_fst (o : Order) (checkvms : Bool) (host : Host) (names : List String) (w : World) :
    (createVmsSingleHost o checkvms host names w).1 = host.ends checkvms names := by
  have hcreate := createVms_fst o host names w
  rw [createVmsSingleHost, Host.ends]
  split
  case isFalse => rfl
  rcases hlogout : host.logoutRaises with _ | _
  case true =>
    rcases createVms o host names w with ⟨_ | infos, w'⟩
    · rfl
    · rfl
  by_cases hexits : (names.any fun name => (host.creation name).exits) = true
  · rw [if_pos hexits] at hcreate ⊢
    rcases hres : createVms o host names w with ⟨_ | infos, w'⟩
    · rfl
    · rw [hres] at hcreate
      cases hcreate
  · rw [if_neg hexits] at hcreate ⊢
    rcases hres : createVms o host names w with ⟨_ | infos, w'⟩ <;> rw [hres] at hcreate <;> cases hcreate
    have hcheck := checkVms_fst checkvms host names w'
    dsimp only
    rcases hloop : checkVms checkvms host (names.map host.info) w' with ⟨_ | kept, w''⟩ <;>
      rw [hloop] at hcheck
    · split at hcheck
      · next hraises => simp [hraises]
      · cases hcheck
    · split at hcheck
      · cases hcheck
      · next hraises =>
          cases hcheck
          simp [hraises]

/-! ## The reservation sees the same calls -/

theorem createVms_reserve (host : DynVm.Host) (names : List String) :
    (DynVm.createVms host names).2 = !names.any fun name => (host.vm name).exits := by
  induction names with
  | nil => rfl
  | cons name rest ih =>
      rw [DynVm.createVms, List.any_cons]
      split
      · next hexits => rw [hexits, Bool.true_or, Bool.not_true]
      next hexits =>
      rw [Bool.not_eq_true] at hexits
      rw [hexits, Bool.false_or]
      split
      · exact ih
      · exact ih

theorem checkVms_reserve (checkvms : Bool) (host : Host) (labels : Labels) (names : List String) :
    (DynVm.checkVms checkvms host.reserve labels names).2 =
      if names.any (host.raisesAt checkvms) = true then none else some (names.filter (host.keeps checkvms)) := by
  induction names with
  | nil => rfl
  | cons name rest ih =>
      rw [DynVm.checkVms]
      rcases hrest : DynVm.checkVms checkvms host.reserve labels rest with ⟨ops, kept⟩
      rw [hrest] at ih
      dsimp only at ih ⊢
      rw [List.any_cons, List.filter_cons, Host.raisesAt, Host.keeps]
      by_cases hlisted : host.reserve.listed name = true
      · have hskip : ¬ (name.endsWith "_error" || decide ((host.reserve.vm name).ip = some "")) = true := by
          rw [DynVm.Host.listed, Bool.not_eq_true'] at hlisted
          rw [hlisted]
          exact Bool.false_ne_true
        rw [if_neg hskip, hlisted, Bool.true_and, Bool.true_and]
        have hcases : host.overprovisionedAt name = none ∨
            ∃ overprovisioned, host.overprovisionedAt name = some overprovisioned := by
          rcases host.overprovisionedAt name with _ | overprovisioned
          · exact Or.inl rfl
          · exact Or.inr ⟨_, rfl⟩
        rcases hcases with hover | ⟨overprovisioned, hover⟩
        · have hvm : (host.reserve.vm name).overprovisioned = none := hover
          simp [hvm, hover]
        · have hvm : (host.reserve.vm name).overprovisioned = some overprovisioned := hover
          obtain ⟨hpasses, hfails⟩ := passes_fails checkvms hvm
          rw [hpasses, hfails]
          simp only [hvm, hover, reduceCtorEq, decide_false, Bool.false_or]
          rcases hbad : (checkvms && !(host.reserve.vm name).sshOk || overprovisioned) with _ | _
          · simp only [Bool.false_eq_true, if_false, Bool.false_and, Bool.false_or, Bool.not_false, if_true]
            rw [ih]
            split
            · rfl
            · rfl
          · simp only [if_true, Bool.true_and, Bool.not_true, Bool.false_eq_true, if_false]
            by_cases herror : (host.creation name).result.2 = ""
            · have hvmerror : (host.reserve.vm name).error = "" := herror
              simp [hvmerror, herror]
            · have hvmerror : (host.reserve.vm name).error ≠ "" := herror
              rw [if_neg hvmerror, decide_eq_false herror, Bool.false_or]
              exact ih
      · have hskip := Host.listed_eq_false (Bool.eq_false_iff.2 hlisted)
        rw [Bool.not_eq_true] at hlisted
        rw [if_pos hskip, hlisted]
        simpa using ih

/-- The reservation and the VMs go by the same calls: a call ends in the same way in both models. -/
theorem createVmsSingleHost_reserve (checkvms : Bool) (host : Host) (names : List String) (labels : Labels) :
    (DynVm.createVmsSingleHost checkvms host.reserve names labels).2 = host.ends checkvms names := by
  have hcreate := createVms_reserve host.reserve names
  have hcheck := checkVms_reserve checkvms host labels names
  have hexits : (names.any fun name => (host.reserve.vm name).exits) =
      names.any fun name => (host.creation name).exits := rfl
  rw [hexits] at hcreate
  rw [DynVm.createVmsSingleHost, Host.ends]
  by_cases hstarts : (decide (host.overprovisioned = some false) && host.opens) = true
  case neg =>
    rw [if_neg hstarts]
    exact congrArg Prod.snd (if_neg hstarts)
  rw [if_pos hstarts]
  refine (congrArg Prod.snd (if_pos hstarts)).trans ?_
  rcases hcreated : DynVm.createVms host.reserve names with ⟨created, ended⟩
  rcases hchecked : DynVm.checkVms checkvms host.reserve labels names with ⟨checked, kept⟩
  rw [hcreated] at hcreate
  rw [hchecked] at hcheck
  obtain rfl : ended = _ := hcreate
  obtain rfl : kept = _ := hcheck
  have hlogout : host.reserve.logoutRaises = host.logoutRaises := rfl
  rw [hlogout]
  rcases host.logoutRaises with _ | _
  case true => rfl
  rcases names.any fun name => (host.creation name).exits with _ | _
  · rcases names.any (host.raisesAt checkvms) with _ | _
    · rfl
    · rfl
  · rfl

/-! ## What a call leaves -/

/-- A name of one character is the only name. -/
def Single (names : List String) : Prop := ∀ name ∈ names, name.toList.length = 1 → names = [name]

theorem filter_lives_eq_leaves {checkvms : Bool} {host : Host} {names : List String}
    (h : ∀ name ∈ names, host.deletes checkvms name = false) :
    names.filter (fun name => (host.creation name).lives) =
      names.filter fun name => (host.creation name).lives && !host.deletes checkvms name := by
  refine List.filter_congr ?_
  intro name hmem
  rw [h name hmem, Bool.not_false, Bool.and_true]

theorem map_filter_singleton (p : String → Bool) (ref : ℕ) (name : String) :
    ([name].filter p).map (ref, ·) = if p name then [(ref, name)] else [] := by
  rw [List.filter_cons]
  split
  · rfl
  · rfl

/-- The loop over one name. -/
theorem checkVms_singleton (checkvms : Bool) (host : Host) (name : String) (w : World) :
    (checkVms checkvms host [host.info name] w).2 =
      if host.reserve.listed name && host.reserve.fails checkvms name then w.deleteCharacters host.ref name
      else w := by
  rcases checkVms_cases checkvms host name [] w with ⟨hlisted, heq⟩ | ⟨hlisted, hover, heq⟩ |
    ⟨hlisted, hover, ⟨-, hfails, ⟨-, heq⟩ | ⟨-, heq⟩⟩ | ⟨-, hfails, heq⟩⟩ <;> rw [heq, hlisted]
  · rfl
  · have hfails : host.reserve.fails checkvms name = false := by simp [DynVm.Host.fails, Host.reserve, hover]
    rw [hfails]
    rfl
  · rw [hfails]
    rfl
  · rw [hfails]
    rfl
  · rw [hfails]
    rfl

/-- The loop over one name of one character. -/
theorem since_checkVms_single {n : ℕ} (checkvms : Bool) {host : Host} {name : String} {w : World}
    {l : List (ℕ × String)} (hlength : name.toList.length = 1) (hl : ∀ p ∈ l, p.1 ≠ host.ref)
    (hlogout : host.logoutRaises = false)
    (hsince : w.since n = l ++ if (host.creation name).lives then [(host.ref, name)] else []) :
    (checkVms checkvms host [host.info name] w).2.since n =
      l ++ if (host.creation name).lives && !host.deletes checkvms name then [(host.ref, name)] else [] := by
  have hdeleted : (w.deleteCharacters host.ref name).since n = l := by
    obtain ⟨c, hc⟩ := List.length_eq_one_iff.1 hlength
    have hname : String.ofList [c] = name := by rw [← hc, String.ofList_toList]
    rw [World.deleteCharacters, hc, List.foldl_cons, List.foldl_nil, hname, since_deleteVm, hsince,
      List.filter_append]
    have hkeep : l.filter (fun p => !(p.1 = host.ref && p.2 = name)) = l := by
      rw [List.filter_eq_self]
      intro p hp
      simp [hl p hp]
    rw [hkeep]
    split <;> simp
  have hdeletes : host.deletes checkvms name = (host.reserve.listed name && host.reserve.fails checkvms name) := by
    simp [Host.deletes, hlogout, hlength]
  rw [checkVms_singleton, hdeletes]
  split
  · next h => simp [h, hdeleted]
  · next h =>
      rw [Bool.not_eq_true] at h
      simpa [h] using hsince

/-- What the loop leaves of the VMs that were created on the host. -/
theorem since_checkVms {n : ℕ} (checkvms : Bool) {host : Host} {names : List String} (hsingle : Single names)
    (hlogout : host.logoutRaises = false) {w : World} {l : List (ℕ × String)} (hl : ∀ p ∈ l, p.1 ≠ host.ref)
    (hsince : w.since n = l ++ (names.filter fun name => (host.creation name).lives).map (host.ref, ·)) :
    (checkVms checkvms host (names.map host.info) w).2.since n = l ++
      (names.filter fun name => (host.creation name).lives && !host.deletes checkvms name).map (host.ref, ·) := by
  by_cases hone : ∃ name ∈ names, name.toList.length = 1
  · obtain ⟨name, hmem, hlength⟩ := hone
    obtain rfl := hsingle name hmem hlength
    rw [map_filter_singleton] at hsince ⊢
    exact since_checkVms_single checkvms hlength hl hlogout hsince
  · have hlong : ∀ p ∈ w.since n, p.1 = host.ref → p.2.toList.length ≠ 1 := by
      intro p hp href hlength
      rw [hsince, List.mem_append] at hp
      rcases hp with hp | hp
      · exact hl p hp href
      · obtain ⟨name, hname, rfl⟩ := List.mem_map.1 hp
        exact hone ⟨name, List.mem_of_mem_filter hname, hlength⟩
    rw [checkVms_snd checkvms host names hlong, hsince]
    rw [filter_lives_eq_leaves]
    intro name hmem
    by_contra hdeletes
    rw [Bool.not_eq_false, Host.deletes, Bool.and_eq_true, Bool.and_eq_true, Bool.and_eq_true] at hdeletes
    exact hone ⟨name, hmem, of_decide_eq_true hdeletes.1.1.2⟩

/-- **What a call of `create_vms_single_host` leaves of the VMs of the request.** -/
theorem createVmsSingleHost_snd {n : ℕ} (o : Order) {checkvms : Bool} {host : Host} {names : List String}
    (hnod : names.Nodup) (hsingle : Single names) {w : World} (hn : n ≤ w.next)
    (hnew : ∀ p ∈ w.since n, p.1 ≠ host.ref) (hends : host.ends checkvms names ≠ .exited) :
    (createVmsSingleHost o checkvms host names w).2.since n =
        w.since n ++ (host.leaves checkvms names).map (host.ref, ·) ∧
      n ≤ (createVmsSingleHost o checkvms host names w).2.next := by
  have hnames : ∀ name ∈ names, (host.ref, name) ∉ w.since n := fun name _ hmem => hnew _ hmem rfl
  obtain ⟨hsince, hnext⟩ := createVms_snd o host hnod hn hnames
  have hfst := createVms_fst o host names w
  rw [Host.ends] at hends
  rw [createVmsSingleHost, Host.leaves]
  split
  case isFalse => exact ⟨(List.append_nil _).symm, hn⟩
  next hstarts =>
  rw [if_pos hstarts] at hends
  rcases hlogout : host.logoutRaises with _ | _
  case true =>
    -- the loop is not reached
    have hdeletes : ∀ name ∈ host.reached names, host.deletes checkvms name = false := by
      intro name _
      simp [Host.deletes, hlogout]
    rw [← filter_lives_eq_leaves hdeletes]
    rcases hres : createVms o host names w with ⟨_ | infos, w'⟩ <;> rw [hres] at hsince hnext
    · exact ⟨hsince, hnext⟩
    · exact ⟨hsince, hnext⟩
  rw [hlogout] at hends
  have hexits : ¬ (names.any fun name => (host.creation name).exits) = true := by
    intro h
    rw [if_pos h] at hends
    exact hends rfl
  rw [if_neg hexits] at hfst
  rw [reached_eq_self hexits] at hsince ⊢
  rcases hres : createVms o host names w with ⟨_ | infos, w'⟩ <;> rw [hres] at hsince hnext hfst
  · cases hfst
  obtain rfl := Option.some.inj hfst
  have hloopnext := next_checkVms checkvms host names w'
  have hloop := since_checkVms checkvms hsingle hlogout hnew hsince
  dsimp only
  rw [if_neg (by simp)]
  rcases hres : checkVms checkvms host (names.map host.info) w' with ⟨_ | kept, w''⟩ <;>
    rw [hres] at hloop hloopnext
  · exact ⟨hloop, hnext.trans (Nat.le_of_eq hloopnext.symm)⟩
  · exact ⟨hloop, hnext.trans (Nat.le_of_eq hloopnext.symm)⟩

/-! ## Calls that leave what they return -/

/-- **A call that leaves on the host what it returns.** If `session.logout()` raises, no VM has been created.
    If the loop raises at a VM, every VM that was created is one that the loop deletes: its name has one
    character. Otherwise the VMs created are those that the loop keeps. -/
def Host.CleanCall (checkvms : Bool) (host : Host) (names : List String) : Prop :=
  host.overprovisioned = some false → host.opens = true →
    if host.logoutRaises = true then ∀ name ∈ host.reached names, (host.creation name).lives = false
    else if names.any (fun name => (host.creation name).exits) = true then True
    else if names.any (host.raisesAt checkvms) = true then
      ∀ name ∈ names, (host.creation name).lives = true → host.deletes checkvms name = true
    else ∀ name ∈ names, (host.creation name).lives = host.keeps checkvms name

/-- The names that a call returns. -/
def keptNames : Attempt → List String
  | .returned kept => kept
  | _ => []

theorem filter_perm_filter_iff {p q : String → Bool} (names : List String) :
    (names.filter p).Perm (names.filter q) ↔ ∀ name ∈ names, p name = q name := by
  constructor
  · intro h name hmem
    have hiff := h.mem_iff (a := name)
    rw [List.mem_filter, List.mem_filter] at hiff
    rw [Bool.eq_iff_iff]
    exact ⟨fun hp => (hiff.1 ⟨hmem, hp⟩).2, fun hq => (hiff.2 ⟨hmem, hq⟩).2⟩
  · intro h
    rw [List.filter_congr h]

/-- If the loop goes through, it has deleted no VM that lives: it would have raised there. -/
theorem deletes_eq_false {checkvms : Bool} {host : Host} {names : List String}
    (h : ¬ names.any (host.raisesAt checkvms) = true) {name : String} (hmem : name ∈ names)
    (hlives : (host.creation name).lives = true) : host.deletes checkvms name = false := by
  by_contra hdeletes
  rw [Bool.not_eq_false, Host.deletes, Bool.and_eq_true, Bool.and_eq_true] at hdeletes
  refine h (List.any_eq_true.2 ⟨name, hmem, ?_⟩)
  rw [Host.raisesAt, hdeletes.1.2, hdeletes.2, Creation.error_of_lives hlives]
  simp

/-- **A call is clean if and only if the VMs it leaves are those it returns.** -/
theorem leaves_perm_kept_iff {checkvms : Bool} {host : Host} {names : List String}
    (hends : host.ends checkvms names ≠ .exited) :
    (host.leaves checkvms names).Perm (keptNames (host.ends checkvms names)) ↔ host.CleanCall checkvms names := by
  rw [Host.ends] at hends ⊢
  rw [Host.CleanCall, Host.leaves]
  by_cases hstarts : (decide (host.overprovisioned = some false) && host.opens) = true
  case neg =>
    rw [if_neg hstarts, if_neg hstarts]
    refine iff_of_true (List.Perm.refl _) ?_
    intro hover hopens
    exact absurd (by rw [hover, hopens]; rfl) hstarts
  rw [if_pos hstarts] at hends ⊢
  rw [if_pos hstarts]
  rw [Bool.and_eq_true, decide_eq_true_eq] at hstarts
  rw [imp_iff_right hstarts.1, imp_iff_right hstarts.2]
  by_cases hlogout : host.logoutRaises = true
  · rw [if_pos hlogout, if_pos hlogout]
    show (_ : List String).Perm [] ↔ _
    rw [List.perm_nil, List.filter_eq_nil_iff]
    refine forall₂_congr fun name _ => ?_
    simp [Host.deletes, hlogout]
  rw [if_neg hlogout] at hends ⊢
  rw [if_neg hlogout]
  by_cases hexits : (names.any fun name => (host.creation name).exits) = true
  · rw [if_pos hexits] at hends
    exact absurd rfl hends
  rw [if_neg hexits, if_neg hexits]
  rw [reached_eq_self hexits]
  by_cases hraises : names.any (host.raisesAt checkvms) = true
  · rw [if_pos hraises, if_pos hraises]
    show (_ : List String).Perm [] ↔ _
    rw [List.perm_nil, List.filter_eq_nil_iff]
    refine forall₂_congr fun name _ => ?_
    rw [Bool.and_eq_true, Bool.not_eq_true', not_and, Bool.not_eq_false]
  · rw [if_neg hraises, if_neg hraises]
    show (_ : List String).Perm (names.filter _) ↔ _
    rw [filter_perm_filter_iff]
    refine forall₂_congr fun name hmem => ?_
    rcases hlives : (host.creation name).lives with _ | _
    · rw [Bool.false_and]
    · rw [deletes_eq_false hraises hmem hlives, Bool.not_false, Bool.and_true]

/-! ## The loop over the hosts -/

/-- A property that tells two parts of a list apart takes it apart. -/
theorem filter_append_eq {α : Type} {p : α → Bool} {l₁ l₂ : List α} (h₁ : ∀ x ∈ l₁, p x = true)
    (h₂ : ∀ x ∈ l₂, p x = false) : (l₁ ++ l₂).filter p = l₁ ∧ (l₁ ++ l₂).filter (fun x => !p x) = l₂ := by
  rw [List.filter_append, List.filter_append]
  constructor
  · have hnil : l₂.filter p = [] := List.filter_eq_nil_iff.2 fun x hx => by simp [h₂ x hx]
    rw [List.filter_eq_self.2 h₁, hnil, List.append_nil]
  · have hnil : l₁.filter (fun x => !p x) = [] := List.filter_eq_nil_iff.2 fun x hx => by simp [h₁ x hx]
    have hself : l₂.filter (fun x => !p x) = l₂ := List.filter_eq_self.2 fun x hx => by simp [h₂ x hx]
    rw [hnil, hself, List.nil_append]

theorem append_perm_append_iff {α : Type} (p : α → Bool) {l₁ l₂ k₁ k₂ : List α} (hl₁ : ∀ x ∈ l₁, p x = true)
    (hk₁ : ∀ x ∈ k₁, p x = true) (hl₂ : ∀ x ∈ l₂, p x = false) (hk₂ : ∀ x ∈ k₂, p x = false) :
    (l₁ ++ l₂).Perm (k₁ ++ k₂) ↔ l₁.Perm k₁ ∧ l₂.Perm k₂ := by
  obtain ⟨hl, hl'⟩ := filter_append_eq hl₁ hl₂
  obtain ⟨hk, hk'⟩ := filter_append_eq hk₁ hk₂
  constructor
  · intro h
    have hpos := h.filter p
    have hneg := h.filter fun x => !p x
    rw [hl, hk] at hpos
    rw [hl', hk'] at hneg
    exact ⟨hpos, hneg⟩
  · rintro ⟨h₁, h₂⟩
    exact h₁.append h₂

theorem Single.perm {names names' : List String} (h : Single names) (hperm : names'.Perm names) :
    Single names' := by
  intro name hmem hlength
  have heq := h name (hperm.mem_iff.1 hmem) hlength
  rw [heq] at hperm
  exact List.perm_singleton.1 hperm

theorem Single.sublist {names names' : List String} (h : Single names) (hsub : names'.Sublist names) :
    Single names' := by
  intro name hmem hlength
  have heq := h name (hsub.subset hmem) hlength
  rw [heq] at hsub
  rcases List.sublist_singleton.1 hsub with hnil | hone
  · rw [hnil] at hmem
    cases hmem
  · exact hone

/-- The names that a host is asked for. -/
def asked (order : List String → List String) (available : Int) (need : List String) : List String :=
  (order need).take (min available need.length).toNat

theorem asked_sublist (order : List String → List String) (available : Int) (need : List String) :
    (asked order available need).Sublist (order need) := List.take_sublist _ _

/-- The VMs behind `merged_vms_list`, from the answers of the hosts; `none` when `sys.exit` ends a call. -/
def keptFrom (checkvms : Bool) (order : List String → List String) :
    List (Int × Host) → List String → Option (List (ℕ × String))
  | [], _ => some []
  | (available, host) :: rest, need =>
      if need = [] then some []
      else if 0 < available then
        match host.ends checkvms (asked order available need) with
        | .exited => none
        | .raised => keptFrom checkvms order rest need
        | .returned kept =>
            (keptFrom checkvms order rest (need.diff kept)).map (kept.map (host.ref, ·) ++ ·)
      else keptFrom checkvms order rest need

theorem distribute_fst (o : Order) (checkvms : Bool) (order : List String → List String)
    (hosts : List (Int × Host)) (need : List String) (w : World) :
    (distribute o checkvms order hosts need w).1 = keptFrom checkvms order hosts need := by
  induction hosts generalizing need w with
  | nil => rfl
  | cons entry rest ih =>
      obtain ⟨available, host⟩ := entry
      have hfst := createVmsSingleHost_fst o checkvms host (asked order available need) w
      rw [distribute, keptFrom]
      split
      · rfl
      split
      · dsimp only
        rw [asked] at hfst ⊢
        rcases hcall : createVmsSingleHost o checkvms host
          ((order need).take (min available need.length).toNat) w with ⟨kept | _ | _, w'⟩ <;>
          rw [hcall] at hfst <;> rw [← hfst]
        · dsimp only
          rw [ih]
        · exact ih need w'
      · exact ih need w

/-- Every call on the way is clean. -/
def CleanFrom (checkvms : Bool) (order : List String → List String) :
    List (Int × Host) → List String → Prop
  | [], _ => True
  | (available, host) :: rest, need =>
      if need = [] then True
      else if 0 < available then
        let names := asked order available need
        host.CleanCall checkvms names ∧
          CleanFrom checkvms order rest (need.diff (keptNames (host.ends checkvms names)))
      else CleanFrom checkvms order rest need

theorem mem_of_mem_leaves {checkvms : Bool} {host : Host} {names : List String} {name : String}
    (h : name ∈ host.leaves checkvms names) : name ∈ names := by
  rw [Host.leaves] at h
  split at h
  · exact (List.takeWhile_sublist _).subset (List.mem_of_mem_filter h)
  · cases h

theorem keptNames_sublist (checkvms : Bool) (host : Host) (names : List String) :
    (keptNames (host.ends checkvms names)).Sublist names := by
  rw [Host.ends]
  split
  · split
    · exact List.nil_sublist names
    split
    · exact List.nil_sublist names
    split
    · exact List.nil_sublist names
    · exact List.filter_sublist
  · exact List.nil_sublist names

/-- A call that raises is one that returns nothing. -/
theorem keptFrom_cons (checkvms : Bool) (order : List String → List String) {available : Int} {host : Host}
    (rest : List (Int × Host)) {need : List String} (hneed : need ≠ []) (havailable : 0 < available)
    (hends : host.ends checkvms (asked order available need) ≠ .exited) :
    keptFrom checkvms order ((available, host) :: rest) need =
      (keptFrom checkvms order rest
          (need.diff (keptNames (host.ends checkvms (asked order available need))))).map
        ((keptNames (host.ends checkvms (asked order available need))).map (host.ref, ·) ++ ·) := by
  rw [keptFrom, if_neg hneed, if_pos havailable]
  rcases hcall : host.ends checkvms (asked order available need) with kept | _ | _
  · rfl
  · show _ = (keptFrom checkvms order rest (need.diff [])).map ([] ++ ·)
    rw [List.diff_nil]
    exact Option.map_id'.symm
  · exact absurd hcall hends

theorem distribute_snd_cons (o : Order) (checkvms : Bool) (order : List String → List String) {available : Int}
    {host : Host} (rest : List (Int × Host)) {need : List String} (hneed : need ≠ []) (havailable : 0 < available)
    (hends : host.ends checkvms (asked order available need) ≠ .exited) (w : World) :
    (distribute o checkvms order ((available, host) :: rest) need w).2 =
      (distribute o checkvms order rest
          (need.diff (keptNames (host.ends checkvms (asked order available need))))
        (createVmsSingleHost o checkvms host (asked order available need) w).2).2 := by
  have hfst := createVmsSingleHost_fst o checkvms host (asked order available need) w
  rw [distribute, if_neg hneed, if_pos havailable]
  dsimp only
  rw [asked] at hfst hends ⊢
  rcases hcall : createVmsSingleHost o checkvms host
    ((order need).take (min available need.length).toNat) w with ⟨kept | _ | _, w'⟩ <;>
    rw [hcall] at hfst <;> rw [← hfst] at hends ⊢
  · rfl
  · show _ = (distribute o checkvms order rest (need.diff []) w').2
    rw [List.diff_nil]
  · exact absurd rfl hends

/-- What a host has and what the later ones have are needed names on these hosts. -/
theorem forall_mem_host_append {ref : ℕ} {refs : List ℕ} {need names : List String} {left : List (ℕ × String)}
    (hnames : ∀ name ∈ names, name ∈ need) (hleft : ∀ p ∈ left, p.1 ∈ refs ∧ p.2 ∈ need) :
    ∀ p ∈ names.map (ref, ·) ++ left, p.1 ∈ ref :: refs ∧ p.2 ∈ need := by
  intro p hp
  rcases List.mem_append.1 hp with hp | hp
  · obtain ⟨name, hname, rfl⟩ := List.mem_map.1 hp
    exact ⟨List.mem_cons_self, hnames name hname⟩
  · exact ⟨List.mem_cons_of_mem _ (hleft p hp).1, (hleft p hp).2⟩

/-- What the request merges are names that it needs, each of them once. -/
theorem keptFrom_names {checkvms : Bool} {order : List String → List String}
    (horder : ∀ need, (order need).Perm need) {hosts : List (Int × Host)} {need : List String}
    (hnod : need.Nodup) {merged : List (ℕ × String)} (h : keptFrom checkvms order hosts need = some merged) :
    (merged.map Prod.snd).Nodup ∧ ∀ p ∈ merged, p.1 ∈ hosts.map (fun h => h.2.ref) ∧ p.2 ∈ need := by
  induction hosts generalizing need merged with
  | nil =>
      cases h
      exact ⟨List.nodup_nil, fun _ hp => nomatch hp⟩
  | cons entry rest ih =>
      obtain ⟨available, host⟩ := entry
      by_cases hneed : need = []
      · rw [keptFrom, if_pos hneed] at h
        cases h
        exact ⟨List.nodup_nil, fun _ hp => nomatch hp⟩
      by_cases havailable : 0 < available
      case neg =>
        rw [keptFrom, if_neg hneed, if_neg havailable] at h
        obtain ⟨hnames, hmem⟩ := ih hnod h
        exact ⟨hnames, fun p hp => ⟨List.mem_cons_of_mem _ (hmem p hp).1, (hmem p hp).2⟩⟩
      by_cases hends : host.ends checkvms (asked order available need) = .exited
      · rw [keptFrom, if_neg hneed, if_pos havailable, hends] at h
        cases h
      rw [keptFrom_cons checkvms order rest hneed havailable hends] at h
      obtain ⟨merged', hmerged', rfl⟩ := Option.map_eq_some_iff.1 h
      have hsub := (keptNames_sublist checkvms host (asked order available need)).trans
        (asked_sublist order available need)
      obtain ⟨hnames, hmem⟩ := ih hnod.diff hmerged'
      constructor
      · have hsnd : ((keptNames (host.ends checkvms (asked order available need))).map (host.ref, ·)).map
            Prod.snd = keptNames (host.ends checkvms (asked order available need)) := by
          rw [List.map_map]
          exact List.map_id _
        rw [List.map_append, hsnd, List.nodup_append']
        refine ⟨((horder need).nodup_iff.2 hnod).sublist hsub, hnames, ?_⟩
        intro name hkept hlater
        obtain ⟨p, hp, rfl⟩ := List.mem_map.1 hlater
        exact ((hnod.mem_sdiff_iff).1 (hmem p hp).2).2 hkept
      · refine forall_mem_host_append (fun name hname => (horder need).mem_iff.1 (hsub.subset hname)) fun p hp => ?_
        exact ⟨(hmem p hp).1, (List.diff_sublist need _).subset (hmem p hp).2⟩

theorem pair_injective (ref : ℕ) : Function.Injective fun name : String => (ref, name) := by
  intro name name' h
  exact (Prod.mk.inj h).2

/-- What a host has and what the later ones have are told apart by the host. -/
theorem host_perm_iff {ref : ℕ} {refs : List ℕ} (href : ref ∉ refs) {names kept : List String}
    {left merged : List (ℕ × String)} (hleft : ∀ p ∈ left, p.1 ∈ refs) (hmerged : ∀ p ∈ merged, p.1 ∈ refs) :
    (names.map (ref, ·) ++ left).Perm (kept.map (ref, ·) ++ merged) ↔ names.Perm kept ∧ left.Perm merged := by
  have hhere : ∀ names : List String, ∀ p ∈ names.map (ref, ·), decide (p.1 = ref) = true := by
    intro names p hp
    obtain ⟨name, -, rfl⟩ := List.mem_map.1 hp
    exact decide_eq_true rfl
  have hlater : ∀ p : ℕ × String, p.1 ∈ refs → decide (p.1 = ref) = false := by
    intro p hp
    rw [decide_eq_false_iff_not]
    intro heq
    exact href (heq ▸ hp)
  rw [append_perm_append_iff (fun p => decide (p.1 = ref)) (hhere names) (hhere kept)
      (fun p hp => hlater p (hleft p hp)) (fun p hp => hlater p (hmerged p hp)),
    List.map_perm_map_iff (pair_injective ref)]

/-- **What the loop leaves of the VMs of the request**: what it has merged, if and only if every call on the
    way was clean. -/
theorem distribute_snd {n : ℕ} (o : Order) {checkvms : Bool} {order : List String → List String}
    (horder : ∀ need, (order need).Perm need) {hosts : List (Int × Host)}
    (hrefs : (hosts.map fun h => h.2.ref).Nodup) {need : List String} (hnod : need.Nodup)
    (hsingle : Single need) {w : World} (hn : n ≤ w.next)
    (hnew : ∀ p ∈ w.since n, p.1 ∉ hosts.map fun h => h.2.ref) {merged : List (ℕ × String)}
    (h : keptFrom checkvms order hosts need = some merged) :
    ∃ left, (distribute o checkvms order hosts need w).2.since n = w.since n ++ left ∧
      (∀ p ∈ left, p.1 ∈ hosts.map (fun h => h.2.ref) ∧ p.2 ∈ need) ∧
      (left.Perm merged ↔ CleanFrom checkvms order hosts need) := by
  induction hosts generalizing need w merged with
  | nil =>
      cases h
      exact ⟨[], (List.append_nil _).symm, fun _ hp => absurd hp List.not_mem_nil,
          iff_of_true (List.Perm.refl _) trivial⟩
  | cons entry rest ih =>
      obtain ⟨available, host⟩ := entry
      rw [List.map_cons, List.nodup_cons] at hrefs
      by_cases hneed : need = []
      · rw [keptFrom, if_pos hneed] at h
        cases h
        rw [distribute, if_pos hneed, CleanFrom, if_pos hneed]
        exact ⟨[], (List.append_nil _).symm, fun _ hp => absurd hp List.not_mem_nil,
          iff_of_true (List.Perm.refl _) trivial⟩
      have hnewRest : ∀ p ∈ w.since n, p.1 ∉ rest.map fun h => h.2.ref :=
        fun p hp hmem => hnew p hp (List.mem_cons_of_mem _ hmem)
      by_cases havailable : 0 < available
      case neg =>
        rw [keptFrom, if_neg hneed, if_neg havailable] at h
        obtain ⟨left, hleft, hmem, hiff⟩ := ih hrefs.2 hnod hsingle hn hnewRest h
        rw [distribute, if_neg hneed, if_neg havailable, CleanFrom, if_neg hneed, if_neg havailable]
        exact ⟨left, hleft, fun p hp => ⟨List.mem_cons_of_mem _ (hmem p hp).1, (hmem p hp).2⟩, hiff⟩
      by_cases hends : host.ends checkvms (asked order available need) = .exited
      · rw [keptFrom, if_neg hneed, if_pos havailable, hends] at h
        cases h
      rw [keptFrom_cons checkvms order rest hneed havailable hends] at h
      obtain ⟨merged', hmerged', rfl⟩ := Option.map_eq_some_iff.1 h
      rw [distribute_snd_cons o checkvms order rest hneed havailable hends, CleanFrom, if_neg hneed,
        if_pos havailable]
      dsimp only
      have hasked := asked_sublist order available need
      have hneeded : ∀ name ∈ asked order available need, name ∈ need :=
        fun name hname => (horder need).mem_iff.1 (hasked.subset hname)
      obtain ⟨hcall, hnext⟩ := createVmsSingleHost_snd o (((horder need).nodup_iff.2 hnod).sublist hasked)
        ((hsingle.perm (horder need)).sublist hasked) hn
        (fun p hp href => hnew p hp (href ▸ List.mem_cons_self)) hends
      -- none of what the host now has is on a later host
      have hnewCall : ∀ p ∈ (createVmsSingleHost o checkvms host (asked order available need) w).2.since n,
          p.1 ∉ rest.map fun h => h.2.ref := by
        intro p hp
        rw [hcall, List.mem_append] at hp
        rcases hp with hp | hp
        · exact hnewRest p hp
        · obtain ⟨name, -, rfl⟩ := List.mem_map.1 hp
          exact hrefs.1
      obtain ⟨left, hleft, hmem, hiff⟩ := ih hrefs.2 hnod.diff (hsingle.sublist (List.diff_sublist need _))
        hnext hnewCall hmerged'
      refine ⟨(host.leaves checkvms (asked order available need)).map (host.ref, ·) ++ left, ?_, ?_, ?_⟩
      · rw [hleft, hcall, List.append_assoc]
      · refine forall_mem_host_append (fun name hname => hneeded name (mem_of_mem_leaves hname)) fun p hp => ?_
        exact ⟨(hmem p hp).1, (List.diff_sublist need _).subset (hmem p hp).2⟩
      · rw [host_perm_iff hrefs.1 (fun p hp => (hmem p hp).1)
            (fun p hp => ((keptFrom_names horder hnod.diff hmerged').2 p hp).1),
          leaves_perm_kept_iff hends, hiff]

/-! ## The names of a request -/

theorem generateVmNames_nodup (name : String) (count : Int) : (generateVmNames name count).Nodup := by
  rw [generateVmNames]
  split
  · exact List.nodup_nil
  split
  · exact List.nodup_singleton name
  refine List.Nodup.map ?_ List.nodup_range
  intro i j h
  have htext := congrArg String.toList h
  rw [String.toList_append, String.toList_append] at htext
  exact Nat.succ.inj (PyText.toString_toList_injective (List.append_cancel_left htext))

theorem generateVmNames_single {name : String} (hname : name ≠ "") (count : Int) :
    Single (generateVmNames name count) := by
  intro vm hmem hlength
  rw [generateVmNames] at hmem ⊢
  split at hmem
  · cases hmem
  next hzero =>
  rw [if_neg hzero]
  split at hmem
  · next hone =>
      rw [if_pos hone, List.mem_singleton.1 hmem]
  -- with a number after it the name has at least two characters
  obtain ⟨i, -, rfl⟩ := List.mem_map.1 hmem
  have hleft : 0 < name.toList.length := by
    rw [List.length_pos_iff]
    intro hnil
    exact hname (String.toList_eq_nil_iff.1 hnil)
  have hright : 0 < (toString (i + 1)).toList.length := by
    obtain ⟨d, rest, hcons, -⟩ := PyText.toString_cons (i + 1)
    rw [hcons]
    exact Nat.succ_pos _
  rw [String.toList_append, List.length_append] at hlength
  omega

theorem Request.vmNames_nodup (r : Request) : r.vmNames.Nodup := generateVmNames_nodup r.username r.count

theorem Request.vmNames_single (r : Request) : Single r.vmNames :=
  generateVmNames_single r.username_ne r.count

/-! ## The request -/

/-- Every VM with a `uuid` from `n` on is in the answer, which has one for each of its names. -/
def Accounted (n : ℕ) : Answer × World → Prop
  | (.returned vms, w) => (w.since n).Perm vms ∧ (vms.map Prod.snd).Nodup
  | (.refused, w) => w.since n = []
  | (.exited, _) => True

/-- **No VM of the request is left over.** -/
def NoOrphan (r : Request) (w : World) : Prop := Accounted w.next (getserversService r w)

/-- The request releases all its VMs again: with `all_or_none` it does so when there are fewer than it asked
    for. -/
def Request.TooFew (r : Request) (kept : ℕ) : Prop := (kept : Int) ≠ r.count ∧ r.allOrNone = true

/-- **The hosts answer such that no VM is left over**: every call of `create_vms_single_host` is clean, or the
    request ends without an answer, or all VMs are released in the end. -/
def Request.Clean (r : Request) : Prop :=
  match r.xhost with
  | some host =>
      (∃ kept, host.ends r.checkvms r.vmNames = .returned kept ∧ r.TooFew kept.length) ∨
        host.CleanCall r.checkvms r.vmNames
  | none =>
      match r.hosts with
      | none => True
      | some hosts =>
          r.count > max ((hosts.map Prod.fst).sum - (r.reserved - r.count)) 0 ∨
            (∀ merged, keptFrom r.checkvms r.order hosts r.vmNames = some merged → r.TooFew merged.length) ∨
              CleanFrom r.checkvms r.order hosts r.vmNames

theorem since_releaseServers {n : ℕ} (r : Request) {w : World}
    (h : ∀ p ∈ w.since n, p.1 ∈ r.config.refs ∧ p.2 ∈ r.vmNames) :
    (releaseServers r.config r.username r.count w).since n = [] := by
  rw [releaseServers_eq]
  refine (map_filter_machines n w.machines fun p => !(p.1 ∈ r.config.refs && p.2 ∈ r.vmNames)).trans ?_
  rw [List.filter_eq_nil_iff]
  intro p hp
  obtain ⟨href, hname⟩ := h p hp
  simp [href, hname]

theorem accounted_conclude {n : ℕ} (r : Request) {vms : List (ℕ × String)} {w : World}
    (hsince : ∀ p ∈ w.since n, p.1 ∈ r.config.refs ∧ p.2 ∈ r.vmNames) (hnod : (vms.map Prod.snd).Nodup) :
    Accounted n (r.conclude vms w) ↔ r.TooFew vms.length ∨ (w.since n).Perm vms := by
  rw [Request.conclude]
  split
  · next hfew => exact iff_of_true (since_releaseServers r hsince) (Or.inl hfew)
  · next hfew => exact (and_iff_left hnod).trans (or_iff_right hfew).symm

theorem cleanCall_of_exited {checkvms : Bool} {host : Host} {names : List String}
    (h : host.ends checkvms names = .exited) : host.CleanCall checkvms names := by
  rw [Host.ends] at h
  intro hover hopens
  rw [if_pos (by rw [hover, hopens]; rfl)] at h
  split at h
  · cases h
  next hlogout =>
  rw [if_neg hlogout]
  split at h
  · next hexits =>
      rw [if_pos hexits]
      trivial
  · split at h
    · cases h
    · cases h

/-- The request that names its host. -/
theorem accounted_single (r : Request) {host : Host} (hxhost : r.xhost = some host) (w : World) :
    Accounted w.next (getserversService r w) ↔ r.Clean := by
  have hfst := createVmsSingleHost_fst r.vmOrder r.checkvms host r.vmNames w
  have hsnd : host.ends r.checkvms r.vmNames ≠ .exited →
      (createVmsSingleHost r.vmOrder r.checkvms host r.vmNames w).2.since w.next =
        (host.leaves r.checkvms r.vmNames).map (host.ref, ·) := by
    intro hends
    have hcall := (createVmsSingleHost_snd r.vmOrder r.vmNames_nodup r.vmNames_single (Nat.le_refl w.next)
      (fun p hp => by rw [since_next] at hp; cases hp) hends).1
    rwa [since_next, List.nil_append] at hcall
  have hiff : host.ends r.checkvms r.vmNames ≠ .exited →
      ((host.leaves r.checkvms r.vmNames).Perm (keptNames (host.ends r.checkvms r.vmNames)) ↔
        host.CleanCall r.checkvms r.vmNames) := leaves_perm_kept_iff
  rw [getserversService, Request.Clean, hxhost]
  dsimp only
  rcases hcall : createVmsSingleHost r.vmOrder r.checkvms host r.vmNames w with ⟨kept | _ | _, w'⟩ <;>
    rw [hcall] at hfst hsnd <;> rw [← hfst] at hsnd hiff ⊢
  · have hsince := hsnd (by simp)
    have hkept := hfst ▸ keptNames_sublist r.checkvms host r.vmNames
    refine (accounted_conclude r ?_ ?_).trans ?_
    · intro p hp
      rw [hsince] at hp
      obtain ⟨name, hname, rfl⟩ := List.mem_map.1 hp
      exact ⟨r.xhost_mem host hxhost, mem_of_mem_leaves hname⟩
    · rw [List.map_map]
      exact (List.map_id _).symm ▸ r.vmNames_nodup.sublist hkept
    · rw [hsince, List.map_perm_map_iff (pair_injective host.ref), ← hiff (by simp), List.length_map]
      refine or_congr ⟨fun hfew => ⟨kept, rfl, hfew⟩, ?_⟩ Iff.rfl
      rintro ⟨_, ⟨⟩, hfew⟩
      exact hfew
  · have hsince := hsnd (by simp)
    show w'.since w.next = [] ↔ _
    rw [hsince, List.map_eq_nil_iff, ← List.perm_nil]
    refine (hiff (by simp)).trans (or_iff_right ?_).symm
    rintro ⟨_, ⟨⟩, _⟩
  · exact iff_of_true trivial (Or.inr (cleanCall_of_exited hfst.symm))

/-- The request that goes over the hosts. -/
theorem accounted_distribute (r : Request) {hosts : List (Int × Host)} (hxhost : r.xhost = none)
    (hhosts : r.hosts = some hosts) (w : World) :
    Accounted w.next (getserversService r w) ↔ r.Clean := by
  have hfst := distribute_fst r.vmOrder r.checkvms r.order hosts r.vmNames w
  rw [getserversService, Request.Clean, hxhost, hhosts]
  dsimp only
  split
  · next hcapacity => exact iff_of_true (since_next w) (Or.inl hcapacity)
  next hcapacity =>
  rw [or_iff_right hcapacity]
  rcases hloop : distribute r.vmOrder r.checkvms r.order hosts r.vmNames w with ⟨_ | merged, w'⟩ <;>
    rw [hloop] at hfst <;> rw [← hfst]
  · refine iff_of_true trivial (Or.inl ?_)
    rintro _ ⟨⟩
  · obtain ⟨left, hleft, hmem, hiff⟩ := distribute_snd r.vmOrder r.order_perm (r.hosts_nodup hosts hhosts)
      r.vmNames_nodup r.vmNames_single (Nat.le_refl w.next)
      (fun p hp => by rw [since_next] at hp; cases hp) hfst.symm
    rw [since_next, List.nil_append, hloop] at hleft
    refine (accounted_conclude r ?_ ?_).trans ?_
    · intro p hp
      rw [hleft] at hp
      obtain ⟨hcases, hname⟩ := hmem p hp
      obtain ⟨h, hh, href⟩ := List.mem_map.1 hcases
      exact ⟨href ▸ r.hosts_mem hosts hhosts h hh, hname⟩
    · exact (keptFrom_names r.order_perm r.vmNames_nodup hfst.symm).1
    · rw [hleft, hiff]
      refine or_congr ⟨?_, fun hfew => hfew merged rfl⟩ Iff.rfl
      rintro hfew _ ⟨⟩
      exact hfew

/-- **When a request has returned, every VM that it created is in the answer or gone if and only if the hosts
    answered cleanly.** -/
theorem noOrphan_iff (r : Request) (w : World) : NoOrphan r w ↔ r.Clean := by
  rw [NoOrphan]
  rcases hxhost : r.xhost with _ | host
  case some => exact accounted_single r hxhost w
  rcases hhosts : r.hosts with _ | hosts
  · rw [getserversService, Request.Clean, hxhost, hhosts]
    exact iff_of_true (since_next w) trivial
  · exact accounted_distribute r hxhost hhosts w

/-- A VM that is created at the first try, at this time. -/
def createdAt (time : Int) : Creation :=
  ⟨false, none, .address "10.1.1.1", .noIp, time, none, time, Int.le_refl time, none⟩

/-- A host that creates every VM; `check_vm` gets its connection, or does not. -/
def creates (ref : ℕ) (time : Int) (sshOk : Bool) : Host :=
  ⟨ref, some false, true, fun _ => createdAt time, fun _ => sshOk, fun _ => some false, false⟩

/-- One VM on two hosts, on the first of which it fails its check. -/
def sshFails : Request where
  config := ⟨[1, 2], by decide, 1440⟩
  username := "qe"
  username_ne := by decide
  count := 1
  exp := 60
  checkvms := true
  allOrNone := true
  xhost := none
  xhost_mem := by simp
  hosts := some [(1, creates 1 0 false), (1, creates 2 0 true)]
  hosts_mem := by
    rintro _ ⟨⟩ _ hh
    simp only [List.mem_cons, List.not_mem_nil, or_false] at hh
    rcases hh with rfl | rfl
    · exact List.mem_cons_self
    · exact List.mem_cons_of_mem _ List.mem_cons_self
  hosts_nodup := by
    rintro _ ⟨⟩
    decide
  reserved := 1
  order := id
  order_perm := fun _ => List.Perm.refl _

/-- The request returns the VM on the second host; the one on the first is still there. -/
theorem sshFails_orphan : ¬ NoOrphan sshFails ⟨[], [], 0, fun _ h => nomatch h⟩ := by
  have hanswer : (getserversService sshFails ⟨[], [], 0, fun _ h => nomatch h⟩).1 =
      .returned [(2, "qe")] := by decide +kernel
  have hleft : (getserversService sshFails ⟨[], [], 0, fun _ h => nomatch h⟩).2.since 0 =
      [(1, "qe"), (2, "qe")] := by decide +kernel
  rw [NoOrphan]
  rcases hres : getserversService sshFails ⟨[], [], 0, fun _ h => nomatch h⟩ with ⟨answer, w⟩
  rw [hres] at hanswer hleft
  obtain rfl : answer = _ := hanswer
  rintro ⟨hperm, -⟩
  exact absurd (hleft ▸ hperm).length_eq (by decide)

end Xen

end DynVm

end TestInfra
