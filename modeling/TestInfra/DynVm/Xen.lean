import TestInfra.DynVm.GetServers
import Mathlib.Data.List.Nodup

set_option autoImplicit false

/-! # The VMs behind a `getservers` request

`DynVm.GetServers` follows the reservation of a request; here it is the VMs. `create_vm` clones one and, if
anything raises on the way, has `delete_vm` delete **every** VM of that name on the host. A VM that fails
its check is to be deleted as well, but `create_vms_single_host` hands its name to `delete_vms`, which goes
through it as through a list: it deletes the VMs whose names are the **characters** of the name. The
clean-up of a request looks for its names on all hosts.

A call that is to delete a VM and reaches it is taken to succeed, with the document of the VM. Hosts are
known by their number in the configuration, whose sections are counted from 1. -/

namespace TestInfra

namespace DynVm

namespace Xen

/-! ## VMs and timers -/

/-- A VM with what its document says. -/
structure Machine where
  ref : ℕ
  name : String
  uuid : ℕ
  /-- The user name of the request that created it. -/
  user : String
  createdTime : Int
  expiredTime : Int
deriving DecidableEq

/-- `threading.Timer(.., release_servers, [new_vm_name, os_name, 1])`, named after the VM. -/
structure Timer where
  due : Int
  name : String
  uuid : ℕ
deriving DecidableEq

/-- The VMs, the timers that have not fired, and the next `uuid`. -/
structure World where
  machines : List Machine
  timers : List Timer
  next : ℕ
  fresh : ∀ m ∈ machines, m.uuid < next

/-- `config` of the service. -/
structure Config where
  refs : List ℕ
  nodup : refs.Nodup
  /-- `vm.expiry.minutes`. -/
  vmExpiryMinutes : Int

/-- `VM.get_by_name_label` finds a VM on the host. -/
def World.hasVm (w : World) (ref : ℕ) (name : String) : Bool :=
  w.machines.any fun m => m.ref = ref && m.name = name

/-- `delete_vm`: every VM of the name on the host. -/
def World.deleteVm (ref : ℕ) (name : String) (w : World) : World :=
  { w with
    machines := w.machines.filter fun m => !(m.ref = ref && m.name = name)
    fresh := fun m hm => w.fresh m (List.mem_of_mem_filter hm) }

/-- `delete_vms(session, vm_name)` with a text for the list. -/
def World.deleteCharacters (ref : ℕ) (name : String) (w : World) : World :=
  name.toList.foldl (fun w c => w.deleteVm ref (String.ofList [c])) w

/-- A new VM has its `uuid` and its timer. -/
def World.startTimer (due : Int) (name : String) (w : World) : World :=
  { w with
    timers := w.timers ++ [⟨due, name, w.next⟩]
    next := w.next + 1
    fresh := fun m hm => Nat.lt_succ_of_lt (w.fresh m hm) }

def World.addMachine (m : Machine) (w : World) (h : m.uuid < w.next) : World :=
  { w with
    machines := w.machines ++ [m]
    fresh := by
      intro m' hm'
      rcases List.mem_append.1 hm' with hm' | hm'
      · exact w.fresh m' hm'
      · rw [List.mem_singleton.1 hm']
        exact h }

/-! ## Creating VMs -/

/-- One round of the retries in `create_vm`. -/
inductive Clone where
  /-- Something raises; `ip` is what `vm_ip_addr` has by then. -/
  | raises (ip : Option String) (error : String)
  /-- No address, or one of `169.*`, within the time: the clone is destroyed. -/
  | noIp
  | address (ip : String)
deriving DecidableEq

/-- What a call of `create_vm` meets. -/
structure Creation where
  /-- There is no such template: `sys.exit(1)`, which no `except Exception` stops. -/
  exits : Bool
  /-- The text of what is raised before the first clone. -/
  before : Option String
  first : Clone
  second : Clone
  provEndTime : Int
  /-- Raised between the address and the timer. -/
  recordRaises : Option String
  timerStart : Int
  timerStart_le : provEndTime ≤ timerStart
  /-- Raised after the timer has been started. -/
  saveRaises : Option String

/-- The address in the end, or what `vm_ip_addr` and `error` are when something was raised. Two rounds are
    made. -/
def Creation.address (c : Creation) : Except (Option String × String) String :=
  match c.before with
  | some error => .error (some "", error)
  | none =>
      match c.first with
      | .raises ip error => .error (ip, error)
      | .address ip => .ok ip
      | .noIp =>
          match c.second with
          | .raises ip error => .error (ip, error)
          | .address ip => .ok ip
          | .noIp => .error (some "", "Couldn't get IP within timeout")

/-- The arguments that `create_vm` takes from the request. -/
structure Order where
  config : Config
  user : String
  expiryMinutes : Int

/-- The expiry in minutes, at most the one of the configuration. -/
def Order.expiry (o : Order) : Int := min o.expiryMinutes o.config.vmExpiryMinutes

/-- `create_vm`: its `vm_ip_addr` and `error`, `none` when `sys.exit` ends it. -/
def createVm (o : Order) (ref : ℕ) (name : String) (c : Creation) (w : World) :
    Option (Option String × String) × World :=
  if c.exits then (none, w)
  else
    match c.address with
    | .error res => (some res, w.deleteVm ref name)
    | .ok ip =>
        match c.recordRaises with
        | some error => (some (some ip, error), w.deleteVm ref name)
        | none =>
            let started := w.startTimer (c.timerStart + o.expiry * 60) name
            match c.saveRaises with
            | some error => (some (some ip, error), started.deleteVm ref name)
            | none =>
                let m := ⟨ref, name, w.next, o.user, c.provEndTime, c.provEndTime + o.expiry * 60⟩
                (some (some ip, ""), started.addMachine m (Nat.lt_succ_self _))

/-- What happens on one host in one call of `create_vms_single_host`. -/
structure Host where
  ref : ℕ
  /-- `host_is_overprovisioned(…, len(vm_names))`; `none` when it raises. -/
  overprovisioned : Option Bool
  /-- `perform_service(…, 'createvm', …)` gets to `create_vms`. -/
  opens : Bool
  creation : String → Creation
  /-- `check_vm` gets its connection. -/
  sshOk : String → Bool
  /-- `host_is_overprovisioned` in the loop over the VMs; `none` when it raises. -/
  overprovisionedAt : String → Option Bool
  /-- `session.logout()`, in the `finally` around `create_vms`, raises. -/
  logoutRaises : Bool

/-- `create_vms`: the entries of `new_vms_info`, each name with its address and its error; `none` when
    `sys.exit` ended it. -/
def createVms (o : Order) (host : Host) :
    List String → World → Option (List (String × Option String × String)) × World
  | [], w => (some [], w)
  | name :: rest, w =>
      match createVm o host.ref name (host.creation name) w with
      | (none, w) => (none, w)
      | (some res, w) =>
          let (infos, w) := createVms o host rest w
          (infos.map ((name, res) :: ·), w)

/-- The loop of `create_vms_single_host` over `vms_info`: `success_vm_names`, `none` when it raises. The
    entries under a `_error` key are passed over. -/
def checkVms (checkvms : Bool) (host : Host) :
    List (String × Option String × String) → World → Option (List String) × World
  | [], w => (some [], w)
  | (name, ip, error) :: rest, w =>
      if name.endsWith "_error" || ip = some "" then checkVms checkvms host rest w
      else
        match host.overprovisionedAt name with
        | none => (none, w)
        | some overprovisioned =>
            if (checkvms && !host.sshOk name) || overprovisioned then
              let w := w.deleteCharacters host.ref name
              -- `vms_info[vm_name + "_error"] = …`: a new key makes the loop over `vms_info.items()` raise
              if error = "" then (none, w) else checkVms checkvms host rest w
            else
              let (names, w) := checkVms checkvms host rest w
              (names.map (name :: ·), w)

/-- `create_vms_single_host`. -/
def createVmsSingleHost (o : Order) (checkvms : Bool) (host : Host) (names : List String) (w : World) :
    Attempt × World :=
  if host.overprovisioned = some false && host.opens then
    match createVms o host names w with
    | (none, w) => (if host.logoutRaises then .raised else .exited, w)
    | (some infos, w) =>
        if host.logoutRaises then (.raised, w)
        else
          match checkVms checkvms host infos w with
          | (some names, w) => (.returned names, w)
          | (none, w) => (.raised, w)
  else (.raised, w)

/-! ## Releasing VMs -/

/-- `get_vm_existed_xenhost_ref`, `none` for its 0. -/
def World.existedXenhostRef (config : Config) (name : String) (w : World) : Option ℕ :=
  config.refs.find? fun ref => w.hasVm ref name

/-- `while True` in `release_servers`, in so many rounds. -/
def releaseName (config : Config) (name : String) : ℕ → World → World
  | 0, w => w
  | fuel + 1, w =>
      match w.existedXenhostRef config name with
      | none => w
      | some ref => releaseName config name fuel (w.deleteVm ref name)

/-- `release_servers`. For every name there is at most one round for each host. -/
def releaseServers (config : Config) (username : String) (count : Int) (w : World) : World :=
  (generateVmNames username count).foldl (fun w name => releaseName config name config.refs.length w) w

/-- The VMs of some kind stay. -/
def World.keep (p : Machine → Bool) (w : World) : World :=
  { w with
    machines := w.machines.filter p
    fresh := fun m hm => w.fresh m (List.mem_of_mem_filter hm) }

theorem World.ext {w w' : World} (hmachines : w.machines = w'.machines) (htimers : w.timers = w'.timers)
    (hnext : w.next = w'.next) : w = w' := by
  rcases w with ⟨machines, timers, next, _⟩
  obtain rfl : machines = _ := hmachines
  obtain rfl : timers = _ := htimers
  obtain rfl : next = _ := hnext
  rfl

theorem World.keep_keep (p q : Machine → Bool) (w : World) :
    (w.keep q).keep p = w.keep fun m => p m && q m :=
  World.ext (List.filter_filter ..) rfl rfl

theorem World.keep_eq_self {p : Machine → Bool} {w : World} (h : ∀ m ∈ w.machines, p m = true) :
    w.keep p = w :=
  World.ext (List.filter_eq_self.2 h) rfl rfl

theorem World.deleteVm_eq (ref : ℕ) (name : String) (w : World) :
    w.deleteVm ref name = w.keep fun m => !(m.ref = ref && m.name = name) := rfl

theorem World.hasVm_iff {w : World} {ref : ℕ} {name : String} :
    w.hasVm ref name = true ↔ ∃ m ∈ w.machines, m.ref = ref ∧ m.name = name := by
  simp [World.hasVm]

theorem World.hasVm_deleteVm (ref ref' : ℕ) (name : String) (w : World) :
    (w.deleteVm ref name).hasVm ref' name = (!(ref' = ref) && w.hasVm ref' name) := by
  rw [Bool.eq_iff_iff, Bool.and_eq_true, World.hasVm_iff, World.hasVm_iff, Bool.not_eq_true',
    decide_eq_false_iff_not]
  constructor
  · rintro ⟨m, hm, rfl, rfl⟩
    rw [World.deleteVm, List.mem_filter] at hm
    refine ⟨?_, m, hm.1, rfl, rfl⟩
    intro href
    simp [href] at hm
  · rintro ⟨hne, m, hm, rfl, rfl⟩
    exact ⟨m, List.mem_filter.2 ⟨hm, by simp [hne]⟩, rfl, rfl⟩

theorem World.keep_of_not_hasVm {config : Config} {name : String} {w : World}
    (h : ∀ ref ∈ config.refs, ¬ w.hasVm ref name = true) :
    w.keep (fun m => !(m.ref ∈ config.refs && m.name = name)) = w := by
  refine World.keep_eq_self ?_
  intro m hm
  rw [Bool.not_eq_true', Bool.and_eq_false_iff, decide_eq_false_iff_not, decide_eq_false_iff_not,
    ← not_and_or]
  rintro ⟨href, hname⟩
  exact h m.ref href (World.hasVm_iff.2 ⟨m, hm, rfl, hname⟩)

/-- The loop needs at most one round for each host that has a VM of the name. -/
theorem releaseName_eq {config : Config} {name : String} {fuel : ℕ} {w : World}
    (h : (config.refs.filter fun ref => w.hasVm ref name).length ≤ fuel) :
    releaseName config name fuel w = w.keep fun m => !(m.ref ∈ config.refs && m.name = name) := by
  induction fuel generalizing w with
  | zero =>
      rw [Nat.le_zero, List.length_eq_zero_iff, List.filter_eq_nil_iff] at h
      exact (World.keep_of_not_hasVm h).symm
  | succ fuel ih =>
      rw [releaseName]
      rcases hfind : w.existedXenhostRef config name with _ | ref
      · exact (World.keep_of_not_hasVm (List.find?_eq_none.1 hfind)).symm
      · rw [World.existedXenhostRef] at hfind
        have hhas : w.hasVm ref name = true := List.find?_some (p := fun ref => w.hasVm ref name) hfind
        have hmem : ref ∈ config.refs := List.mem_of_find?_eq_some hfind
        -- the host does not have it any more, the others are as before
        have hfewer : (config.refs.filter fun ref' => (w.deleteVm ref name).hasVm ref' name).length <
            (config.refs.filter fun ref' => w.hasVm ref' name).length := by
          simp only [World.hasVm_deleteVm]
          rw [← List.filter_filter, List.length_filter_lt_length_iff_exists]
          exact ⟨ref, List.mem_filter.2 ⟨hmem, hhas⟩, by simp⟩
        refine (ih (Nat.lt_succ_iff.1 (hfewer.trans_le h))).trans ?_
        rw [World.deleteVm_eq, World.keep_keep]
        congr 1
        funext m
        by_cases href : m.ref = ref
        · simp [href, hmem]
        · simp [href]

/-- **`release_servers` deletes the VMs of these names on all hosts**, and no other VM. -/
theorem releaseServers_eq (config : Config) (username : String) (count : Int) (w : World) :
    releaseServers config username count w =
      w.keep fun m => !(m.ref ∈ config.refs && m.name ∈ generateVmNames username count) := by
  rw [releaseServers]
  generalize generateVmNames username count = names
  induction names generalizing w with
  | nil =>
      refine (World.keep_eq_self ?_).symm
      intro m _
      simp
  | cons name rest ih =>
      rw [List.foldl_cons, ih, releaseName_eq (List.length_filter_le _ _), World.keep_keep]
      congr 1
      funext m
      rw [← Bool.not_or, ← Bool.and_or_distrib_left, Bool.or_comm]
      simp only [List.mem_cons, Bool.decide_or]

/-! ## The request -/

/-- The loop over the hosts, each with its entry of `available_counts`: the VMs behind `merged_vms_list`,
    or `none` when `SystemExit` went through. -/
def distribute (o : Order) (checkvms : Bool) (order : List String → List String) :
    List (Int × Host) → List String → World → Option (List (ℕ × String)) × World
  | [], _, w => (some [], w)
  | (available, host) :: rest, need, w =>
      if need = [] then (some [], w)
      else if 0 < available then
        let names := (order need).take (min available need.length).toNat
        match createVmsSingleHost o checkvms host names w with
        | (.exited, w) => (none, w)
        | (.raised, w) => distribute o checkvms order rest need w
        | (.returned kept, w) =>
            let (merged, w) := distribute o checkvms order rest (need.diff kept) w
            (merged.map (kept.map (host.ref, ·) ++ ·), w)
      else distribute o checkvms order rest need w

/-- A request, with what it meets on its way. -/
structure Request where
  config : Config
  /-- `<string:username>` of the route, which has at least one character. -/
  username : String
  username_ne : username ≠ ""
  count : Int
  /-- `expiresin`, or `MAX_EXPIRY_MINUTES`. -/
  exp : Int
  checkvms : Bool
  allOrNone : Bool
  /-- The host named by `xhostref`. -/
  xhost : Option Host
  xhost_mem : ∀ host ∈ xhost, host.ref ∈ config.refs
  /-- The answer of `get_all_available_count`, `none` when it raises. -/
  hosts : Option (List (Int × Host))
  hosts_mem : ∀ hosts' ∈ hosts, ∀ h ∈ hosts', h.2.ref ∈ config.refs
  hosts_nodup : ∀ hosts' ∈ hosts, (hosts'.map fun h => h.2.ref).Nodup
  /-- The answer of `get_reserved`. -/
  reserved : Int
  /-- The order in which `list(need_vm_names)` lists a set. -/
  order : List String → List String
  order_perm : ∀ need, (order need).Perm need

def Request.vmNames (r : Request) : List String := generateVmNames r.username r.count

def Request.vmOrder (r : Request) : Order := ⟨r.config, r.username, r.exp⟩

inductive Answer where
  /-- The VMs whose addresses are in the response. -/
  | returned (vms : List (ℕ × String))
  /-- A text and no VMs. -/
  | refused
  /-- `SystemExit` goes through. -/
  | exited
deriving DecidableEq

/-- The end of the request: with `all_or_none` too few VMs are none. -/
def Request.conclude (r : Request) (vms : List (ℕ × String)) (w : World) : Answer × World :=
  if (vms.length : Int) ≠ r.count ∧ r.allOrNone = true then
    (.refused, releaseServers r.config r.username r.count w)
  else (.returned vms, w)

/-- `getservers_service`. -/
def getserversService (r : Request) (w : World) : Answer × World :=
  match r.xhost with
  | some host =>
      match createVmsSingleHost r.vmOrder r.checkvms host r.vmNames w with
      | (.returned kept, w) => r.conclude (kept.map (host.ref, ·)) w
      | (.raised, w) => (.refused, w)
      | (.exited, w) => (.exited, w)
  | none =>
      match r.hosts with
      | none => (.refused, w)
      | some hosts =>
          if r.count > max ((hosts.map Prod.fst).sum - (r.reserved - r.count)) 0 then (.refused, w)
          else
            match distribute r.vmOrder r.checkvms r.order hosts r.vmNames w with
            | (some merged, w) => r.conclude merged w
            | (none, w) => (.exited, w)

end Xen

end DynVm

end TestInfra
