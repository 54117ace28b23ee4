import TestInfra.DynVm.Reserved

set_option autoImplicit false

/-! # A `getservers` request

`getservers_service` raises the reservation by the number of VMs asked for, has `create_vms_single_host`
create them on one host after the other, and lowers the reservation again: by one for every VM created
(in `create_vms`, under the labels **of the host**) and by the rest at the end. What the hosts answer is
an input here (`Host`, `Vm`), and a request is the list of its calls to `increase_reserved` and
`decrease_reserved`, in order: nothing else of it touches the table. -/

namespace TestInfra

namespace DynVm

/-- A call that changes the table. -/
inductive Op where
  | increase (count : Int) (labels : Labels)
  | decrease (count : Int) (labels : Labels)
  deriving DecidableEq, Repr

def Op.apply : Op → Reserved → Reserved
  | .increase count labels => increaseReserved count labels
  | .decrease count labels => decreaseReserved count labels

/-- What happens to one name that is given to `create_vms`. -/
structure Vm where
  /-- `create_vm` runs into `sys.exit(1)` (no such template), which no `except Exception` stops. -/
  exits : Bool
  /-- `vm_ip_addr`. A step that fails after the address is known leaves it next to the error. -/
  ip : Option String
  /-- `error`, empty when the VM was created. -/
  error : String
  /-- `check_vm` gets its connection. -/
  sshOk : Bool
  /-- `host_is_overprovisioned` in the loop over the VMs; `none` when it raises. -/
  overprovisioned : Option Bool

/-- What happens on one host in one call of `create_vms_single_host`. -/
structure Host where
  /-- `host.labels` of the host's section in the configuration. -/
  labels : Labels
  /-- `host_is_overprovisioned(…, len(vm_names))`; `none` when it raises. -/
  overprovisioned : Option Bool
  /-- `perform_service(…, 'createvm', …)` gets to `create_vms`. Otherwise it raises, or returns
      something that has no `items`, or an error text: `create_vms_single_host` raises. -/
  opens : Bool
  vm : String → Vm
  /-- `session.logout()`, in the `finally` around `create_vms`, raises. -/
  logoutRaises : Bool

/-- How a call of `create_vms_single_host` ends. -/
inductive Attempt where
  /-- `success_vm_names`; `success_ips` has the same length. -/
  | returned (names : List String)
  | raised
  /-- `SystemExit` goes through. -/
  | exited
  deriving DecidableEq, Repr

/-- `create_vms`; the flag is false when `sys.exit` ended it. -/
def createVms (host : Host) : List String → List Op × Bool
  | [] => ([], true)
  | name :: rest =>
      if (host.vm name).exits then ([], false)
      else if (host.vm name).error = "" then
        (.decrease 1 host.labels :: (createVms host rest).1, (createVms host rest).2)
      else createVms host rest

/-- The loop of `create_vms_single_host` over `vms_info`, whose entries under a `_error` key it passes
    over; `none` when it raises. -/
def checkVms (checkvms : Bool) (host : Host) (labels : Labels) :
    List String → List Op × Option (List String)
  | [] => ([], some [])
  | name :: rest =>
      let vm := host.vm name
      let (ops, kept) := checkVms checkvms host labels rest
      if name.endsWith "_error" || vm.ip = some "" then (ops, kept)
      else
        match vm.overprovisioned with
        | none => ([], none)
        | some overprovisioned =>
            if (checkvms && !vm.sshOk) || overprovisioned then
              -- `vms_info[vm_name + "_error"] = …` inside the loop over `vms_info.items()`: a new key
              -- makes the next round of the loop raise `RuntimeError`
              if vm.error = "" then ([.increase 1 labels], none)
              else (.increase 1 labels :: ops, kept)
            else (ops, kept.map (name :: ·))

/-- `create_vms_single_host`. -/
def createVmsSingleHost (checkvms : Bool) (host : Host) (names : List String) (labels : Labels) :
    List Op × Attempt :=
  if host.overprovisioned = some false && host.opens then
    let (created, ended) := createVms host names
    if host.logoutRaises then (created, .raised)
    else if ended then
      let (checked, kept) := checkVms checkvms host labels names
      match kept with
      | some names => (created ++ checked, .returned names)
      | none => (created ++ checked, .raised)
    else (created, .exited)
  else ([], .raised)

/-- `generate_vm_names`. -/
def generateVmNames (name : String) (count : Int) : List String :=
  if count = 0 then []
  else if count = 1 then [name]
  else (List.range count.toNat).map fun i => name ++ toString (i + 1)

/-- The loop over the hosts, each with its entry of `available_counts`. The result is the names behind
    `merged_vms_list`, or `none` when `SystemExit` went through. -/
def distribute (checkvms : Bool) (labels : Labels) (order : List String → List String) :
    List (Int × Host) → List String → List Op × Option (List String)
  | [], _ => ([], some [])
  | (available, host) :: rest, need =>
      if need = [] then ([], some [])
      else if 0 < available then
        let names := (order need).take (min available need.length).toNat
        match createVmsSingleHost checkvms host names labels with
        | (ops, .exited) => (ops, none)
        | (ops, .raised) =>
            let (ops', merged) := distribute checkvms labels order rest need
            (ops ++ ops', merged)
        | (ops, .returned kept) =>
            let (ops', merged) := distribute checkvms labels order rest (need.diff kept)
            (ops ++ ops', merged.map (kept ++ ·))
      else distribute checkvms labels order rest need

/-- A request, with what it meets on its way. -/
structure Request where
  username : String
  count : Int
  checkvms : Bool
  labels : Labels
  /-- The host named by `xhostref`. -/
  xhost : Option Host
  /-- The answer of `get_all_available_count`, `none` when it raises. -/
  hosts : Option (List (Int × Host))
  /-- The answer of `get_reserved`. -/
  reserved : Int
  /-- The order in which `list(need_vm_names)` lists a set. -/
  order : List String → List String
  order_perm : ∀ need, (order need).Perm need

/-- `getservers_service`, from `increase_reserved` on. -/
def getserversService (r : Request) : List Op :=
  .increase r.count r.labels ::
    match r.xhost with
    | some host =>
        match createVmsSingleHost r.checkvms host (generateVmNames r.username r.count) r.labels with
        | (ops, .returned kept) => ops ++ [.decrease (r.count - kept.length) r.labels]
        | (ops, .raised) => ops ++ [.decrease r.count r.labels]
        | (ops, .exited) => ops
    | none =>
        match r.hosts with
        | none => []
        | some hosts =>
            if r.count > max ((hosts.map Prod.fst).sum - (r.reserved - r.count)) 0 then
              [.decrease r.count r.labels]
            else
              match distribute r.checkvms r.labels r.order hosts
                (generateVmNames r.username r.count) with
              | (ops, some merged) => ops ++ [.decrease (r.count - merged.length) r.labels]
              | (ops, none) => ops

end DynVm

end TestInfra
