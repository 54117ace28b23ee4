import TestInfra.Lib.Raises
import TestInfra.ServerManager.Dockers
import TestInfra.ServerManager.ReleaseServers

set_option autoImplicit false

/-! # The main loop of the dispatcher

`main` of `testDispatcher_sdk4.py` takes one test after the other from `testsToLaunch`: it books servers
under a new descriptor, asks Jenkins to launch the job and goes on. Whatever raises on the way is caught
by **one handler**, which releases the servers of the `descriptor` that is in scope. That is the local of
`main`: until an iteration has assigned its own, it is the descriptor of an **earlier** iteration.

What an iteration meets is an input (`Env`): the answers of the pools, of the cloud, of Jenkins, and for
every step that can raise whether it does. A local that the handler or a later step reads is a field of
the state. -/

namespace TestInfra

namespace Dispatcher

open Raises Raises.Prog

/-! ## Options, tests and pools -/

/-- The choices of `--serverType`. -/
inductive ServerType where
  | vm | aws | docker | gcp | azure | capellaLocal | elixirOnprem | serverlessOncloud
  | provisionedOncloud | onPremProvisioned | serverlessColumnar
deriving DecidableEq

/-- The types for which a user is invited to Capella. Nothing is booked for them. -/
def ServerType.onCapella : ServerType → Bool
  | .serverlessOncloud | .provisionedOncloud | .serverlessColumnar => true
  | _ => false

/-- `options.serverType in CLOUD_SERVER_TYPES`. -/
def ServerType.onCloud : ServerType → Bool
  | .aws | .azure | .gcp => true
  | type => type.onCapella

/-- Functions of the library on texts. Nothing is assumed of them. -/
structure Library where
  /-- `urllib.parse.quote`. -/
  quote : String → String
  /-- `urllib.parse.unquote`. -/
  unquote : String → String
  /-- `str.isalnum`. -/
  isalnum : Char → Bool

structure Options where
  serverType : ServerType
  noLaunch : Bool
  freshRun : Bool
  /-- `options.check_vm == "True"`. -/
  checkVm : Bool
  poolId : List String
  os : String
  /-- `addPoolServer_os`. -/
  addPoolServerOs : String
  version : String
  capellaUrl : Option String

/-- An entry of `testsToLaunch`. Its other fields only go into the URL. -/
structure Test where
  component : String
  /-- Taken from the document as it is; `none` when that is not a text. -/
  subcomponent : Option String
  serverCount : ℕ
  addPoolServerCount : ℕ
  addPoolId : String
deriving DecidableEq

/-- Where servers are booked: the documents of the server pool, the docker hosts, and the instances in the
    cloud, each known by the name it was given. -/
structure World where
  servers : ServerManager.Pool
  hosts : ServerManager.Hosts
  instances : List String

/-- `CMD | grep ^name` for Azure, a filter on a tag or label otherwise. -/
def ServerType.named : ServerType → String → String → Bool
  | .azure, name, inst => name.toList.isPrefixOf inst.toList
  | _, name, inst => name = inst

inductive Kind where
  | servers | dockers | instances
deriving DecidableEq

/-- Where a type has its servers. -/
def ServerType.kind : ServerType → Kind
  | .docker => .dockers
  | type => if type.onCloud then .instances else .servers

/-- Something of the kind is booked under the descriptor. -/
def World.bookedAs (lib : Library) (o : Options) (descriptor : String) (w : World) : Kind → Bool
  | .servers => ServerManager.anyBookedBy descriptor w.servers
  | .dockers => w.hosts.items.any fun h => descriptor ∈ h.2.users.counts.keys
  | .instances => w.instances.any (o.serverType.named (lib.unquote descriptor))

/-- **A server or docker is booked under the descriptor.** -/
def World.Booked (lib : Library) (o : Options) (descriptor : String) (w : World) : Prop :=
  ∃ kind, w.bookedAs lib o descriptor kind = true

/-! ## What an iteration meets -/

/-- What a call of `get_servers` meets. -/
structure Answer where
  /-- The transaction on the server pool. -/
  attempts : List ServerManager.Attempt
  /-- How many instances the cloud has brought up. -/
  created : ℕ
  /-- What `aws_get_servers`, `gcp_get_servers` or `az_get_servers` returns; `none` when it raises, which
      it may do after the instances are up. -/
  returned : Option (List String)

/-- A round of `while how_many > 0`. -/
structure Round where
  answer : Answer
  /-- `check_servers_via_ssh` raises. -/
  checkRaises : Bool
  /-- `is_vm_alive`. -/
  alive : String → Bool

structure Env where
  /-- What other users of the pools have done since the last iteration. -/
  others : World → World
  /-- `get_available_servers_count` by pool, `none` when it raises. -/
  available : String → Option Int
  /-- The same for the additional pool of the test with the given index. -/
  addlAvailable : ℕ → Option Int
  /-- The line `*** Dispatching job#..` raises. -/
  printRaises : Bool
  /-- `o.split('=')[1]` raises for a reported parameter. -/
  dashboardRaises : Bool
  /-- `should_dispatch_job`, `none` when it or the parameters for it raise. -/
  shouldDispatch : Option Bool
  /-- `time.strftime('%b-%d-%X')`. -/
  now : String
  /-- `str(uuid4())`. -/
  uuid : String
  /-- The concatenation for the descriptor raises. -/
  descriptorRaises : Bool
  /-- `descriptor = quote(descriptor)` raises. -/
  quoteRaises : Bool
  /-- The rounds with `check_vm`. When there are too few of them the call in the next one raises. -/
  rounds : List Round
  /-- The one call without `check_vm`. -/
  answer : Answer
  /-- The call for the additional pool. -/
  addlAnswer : Answer
  /-- The parameters or the URL raise. -/
  urlRaises : Bool
  /-- `release_ip(s, "ssh_failed")` gets its update through. -/
  marksIp : String → Bool
  /-- The name of the Jenkins job raises. -/
  jobRaises : Bool
  /-- `invite_user`: whether it returns a user and a password, `none` when it raises. -/
  invited : Option Bool
  /-- `update_url_with_job_params` raises. -/
  jobParamsRaise : Bool
  /-- The credentials raise. -/
  credentialsRaise : Bool
  /-- The status of the response to the launch request, `none` when the request raises. -/
  status : Option Int
  /-- Raised between the launch and `testsToLaunch.pop(i)`. -/
  countRaises : Bool
  /-- Raised after it, as `int(options.sleep_between_trigger)` does on a text. -/
  sleepRaises : Bool
  /-- A call of `release_servers` in the body gets its transaction or its termination through. -/
  releaseWorks : Bool
  /-- The same for the call in the handler. -/
  handlerWorks : Bool

/-- The calls of an iteration that touch servers. -/
inductive Call where
  /-- `get_servers` has booked at least one server under the descriptor. -/
  | booked (descriptor : String)
  /-- `release_servers(options, descriptor)`. -/
  | release (descriptor : String)
  /-- The launch request for the job has returned a status below 400. -/
  | launched (descriptor : String)
deriving DecidableEq

structure State where
  testsToLaunch : List Test
  /-- `none` while `'descriptor' in locals()` is false. -/
  descriptor : Option String
  servers : List String
  unreachableServers : List String
  addlServers : List String
  world : World
  /-- The calls of the current iteration. -/
  calls : List Call

/-! ## Choosing a test -/

/-- `while not haveTestToLaunch and test_index < len(testsToLaunch)`, from index `i` on. -/
def matchTest (e : Env) (serverCount : Int) : ℕ → List Test → Except Unit (Option (ℕ × Test))
  | _, [] => .ok none
  | i, t :: rest =>
      if (t.serverCount : Int) ≤ serverCount then
        if t.addPoolServerCount ≠ 0 then
          match e.addlAvailable i with
          | none => .error ()
          | some count => if count = 0 then matchTest e serverCount (i + 1) rest else .ok (some (i, t))
        else .ok (some (i, t))
      else matchTest e serverCount (i + 1) rest

/-- `for pool_id in options.poolId`: the test to launch, with its index and `pool_to_use`. For the cloud it
    is the first one, whatever is available. -/
def selectTest (o : Options) (e : Env) (tests : List Test) :
    List String → Except Unit (Option (ℕ × Test × String))
  | [] => .ok none
  | pool :: rest =>
      if o.serverType.onCloud then .ok (tests.head?.map fun t => (0, t, pool))
      else
        match e.available pool with
        | none => .error ()
        | some serverCount =>
            if serverCount = 0 then selectTest o e tests rest
            else
              match matchTest e serverCount 0 tests with
              | .error _ => .error ()
              | .ok (some (i, t)) => .ok (some (i, t, pool))
              | .ok none => selectTest o e tests rest

/-- A job that is about to be dispatched. -/
structure Job where
  i : ℕ
  test : Test
  poolToUse : String
  dispatchJob : Bool

/-- The iteration up to the assignment of `descriptor`: it raises, finds no test it could launch, or has a
    job. -/
def chooseJob (o : Options) (e : Env) (tests : List Test) : Except Unit (Option Job) :=
  match selectTest o e tests o.poolId with
  | .error _ => .error ()
  | .ok none => .ok none
  | .ok (some (i, t, pool)) =>
      -- `quote` takes texts only
      if e.printRaises || t.subcomponent.isNone || e.dashboardRaises then .error ()
      else if o.freshRun then
        if e.descriptorRaises then .error () else .ok (some ⟨i, t, pool, true⟩)
      else
        match e.shouldDispatch with
        | none => .error ()
        | some dispatch =>
            if e.descriptorRaises then .error () else .ok (some ⟨i, t, pool, dispatch⟩)

/-- The descriptor before it is quoted. -/
def rawDescriptor (lib : Library) (o : Options) (e : Env) (t : Test) : String :=
  let descriptor := t.component ++ "-" ++ t.subcomponent.getD "" ++ "-" ++ e.now ++ "-" ++ o.version
  match o.serverType with
  | .gcp | .azure => "testrunner-" ++ e.uuid
  | .aws =>
      let replaced := descriptor.toList.map fun c => if c = '_' then '-' else c
      String.ofList (replaced.filter fun c => lib.isalnum c || c = '-')
  | _ => descriptor

/-- The descriptor of the attempt. -/
def jobDescriptor (lib : Library) (o : Options) (e : Env) (t : Test) : String :=
  lib.quote (rawDescriptor lib o e t)

/-! ## Booking and releasing -/

/-- The request to the server pool. -/
def poolRequest (descriptor : String) (howMany : ℕ) (os poolId : String) : ServerManager.Request :=
  ⟨descriptor, howMany, os, poolId⟩

/-- `get_servers`: what it returns (`none` when it raises), the pools after it, and whether it has booked
    anything. -/
def getServers (lib : Library) (o : Options) (descriptor : String) (howMany : ℕ) (os poolId : String)
    (a : Answer) (w : World) : Option (List String) × World × Bool :=
  match o.serverType with
  | .docker =>
      let (ips, hosts) := ServerManager.getDockers descriptor howMany poolId w.hosts
      (some ips, { w with hosts := hosts }, !ips.isEmpty)
  | .aws | .gcp =>
      (a.returned, { w with instances := w.instances ++ List.replicate a.created (lib.unquote descriptor) },
        a.created ≠ 0)
  | .azure =>
      let names := (List.range a.created).map fun x => lib.unquote descriptor ++ toString (x + 1)
      (a.returned, { w with instances := w.instances ++ names }, a.created ≠ 0)
  | .serverlessOncloud | .provisionedOncloud | .serverlessColumnar => (some [], w, false)
  | .vm | .capellaLocal | .elixirOnprem | .onPremProvisioned =>
      let req := poolRequest descriptor howMany os poolId
      let docs := ServerManager.bookedServers req a.attempts
      (some (ServerManager.getServers req a.attempts),
        { w with servers := ServerManager.commit docs w.servers }, !docs.isEmpty)

/-- What `release_servers` takes away when it works. For dockers it looks for **servers** of that name. -/
def World.freed (lib : Library) (o : Options) (descriptor : String) (w : World) : World :=
  if o.serverType.onCapella then w
  else if o.serverType.onCloud then
    { w with instances := w.instances.filter fun name =>
        !o.serverType.named (lib.unquote descriptor) name }
  else { w with servers := ServerManager.releaseServers descriptor "available" w.servers }

/-- A failure in `aws_terminate` and `az_terminate` is raised; `gcp_terminate` and the server manager catch
    it. -/
def ServerType.releaseRaises : ServerType → Bool
  | .aws | .azure => true
  | _ => false

/-- A step that may raise. -/
def mayRaise (raises : Bool) : Prog State Unit := fun s => (if raises then .error () else .ok (), s)

def assign (descriptor : String) : Prog State Unit := fun s =>
  (.ok (), { s with descriptor := some descriptor })

def popTest (i : ℕ) : Prog State Unit := fun s =>
  (.ok (), { s with testsToLaunch := s.testsToLaunch.eraseIdx i })

/-- `release_servers`. -/
def releaseServers (lib : Library) (o : Options) (works : Bool) (descriptor : String) :
    Prog State Unit := fun s =>
  let s := { s with calls := s.calls ++ [.release descriptor] }
  if works then (.ok (), { s with world := s.world.freed lib o descriptor })
  else (if o.serverType.releaseRaises then .error () else .ok (), s)

/-- A call of `get_servers` whose answer goes to a local. -/
def callGetServers (lib : Library) (o : Options) (descriptor : String) (howMany : ℕ)
    (os poolId : String) (a : Answer) (store : List String → State → State) : Prog State Unit := fun s =>
  let (returned, world, booked) := getServers lib o descriptor howMany os poolId a s.world
  let s := { s with world := world, calls := if booked then s.calls ++ [.booked descriptor] else s.calls }
  match returned with
  | none => (.error (), s)
  | some ips => (.ok (), store ips s)

/-- `while how_many > 0`. -/
def bookChecked (lib : Library) (o : Options) (descriptor : String) (job : Job) :
    List Round → Prog State Unit
  | [] => fun s => mayRaise (s.servers.length < job.test.serverCount) s
  | r :: rest => fun s =>
      if s.servers.length < job.test.serverCount then
        let store := fun ips (s : State) =>
          { s with
            servers := s.servers ++ ips.filter r.alive
            unreachableServers := s.unreachableServers ++ ips.filter fun ip => !r.alive ip }
        ((callGetServers lib o descriptor (job.test.serverCount - s.servers.length) o.os job.poolToUse
          r.answer store).seq ((mayRaise r.checkRaises).seq (bookChecked lib o descriptor job rest))) s
      else (.ok (), s)

/-- The servers of the test. -/
def bookServers (lib : Library) (o : Options) (e : Env) (descriptor : String) (job : Job) :
    Prog State Unit := fun s =>
  let s := { s with servers := [], unreachableServers := [], addlServers := [] }
  if o.checkVm then bookChecked lib o descriptor job e.rounds s
  else
    callGetServers lib o descriptor job.test.serverCount o.os job.poolToUse e.answer
      (fun ips s => { s with servers := ips }) s

/-- The servers of the additional pool. -/
def bookAddl (lib : Library) (o : Options) (e : Env) (descriptor : String) (job : Job) :
    Prog State Unit :=
  if job.test.addPoolServerCount ≠ 0 then
    callGetServers lib o descriptor job.test.addPoolServerCount o.addPoolServerOs job.test.addPoolId
      e.addlAnswer fun ips s => { s with addlServers := ips }
  else skip

/-! ## The rest of an iteration -/

/-- `for s in unreachable_servers: release_ip(s, "ssh_failed")`. -/
def markUnreachable (e : Env) : Prog State Unit := fun s =>
  let servers := (s.unreachableServers.filter e.marksIp).foldl
    (fun pool ip => ServerManager.releaseIp ip "ssh_failed" pool) s.world.servers
  (.ok (), { s with world := { s.world with servers := servers } })

/-- `not dispatch_job`: free the servers. -/
def freeServers (lib : Library) (o : Options) (e : Env) (descriptor : String) : Prog State Unit :=
  if o.serverType = .docker then fun s =>
    match s.servers with
    -- `servers[0]`
    | [] => (.error (), s)
    | ipaddr :: _ =>
        let hosts := (ServerManager.releaseDockers descriptor ipaddr s.world.hosts).2
        (.ok (), { s with world := { s.world with hosts := hosts } })
  else releaseServers lib o e.releaseWorks descriptor

/-- The launch request. -/
def launch (e : Env) (descriptor : String) : Prog State Unit :=
  (mayRaise e.credentialsRaise).seq fun s =>
    match e.status with
    | none => (.error (), s)
    | some status =>
        if status < 400 then (.ok (), { s with calls := s.calls ++ [.launched descriptor] })
        else (.error (), s)

/-- From the last look at the URL to the end of the iteration. -/
def dispatch (lib : Library) (o : Options) (e : Env) (descriptor : String) (job : Job) :
    Prog State Unit :=
  (mayRaise e.jobParamsRaise).seq <|
    (if job.dispatchJob then launch e descriptor else freeServers lib o e descriptor).seq <|
      (mayRaise e.countRaises).seq <| (popTest job.i).seq (mayRaise e.sleepRaises)

/-- For Capella a user is invited first; without one the job is skipped. -/
def inviteAndDispatch (lib : Library) (o : Options) (e : Env) (descriptor : String) (job : Job) :
    Prog State Unit :=
  if o.serverType.onCapella then
    match o.capellaUrl with
    | none => mayRaise true
    | some url =>
        if "cloud.couchbase.com".toList <:+: url.toList then dispatch lib o e descriptor job
        else
          match e.invited with
          | none => mayRaise true
          | some false => popTest job.i
          | some true => dispatch lib o e descriptor job
  else dispatch lib o e descriptor job

/-- The iteration once its descriptor is known. -/
def attempt (lib : Library) (o : Options) (e : Env) (descriptor : String) (job : Job) :
    Prog State Unit :=
  (bookServers lib o e descriptor job).seq fun s =>
    if o.serverType ≠ .docker ∧ s.servers.length ≠ job.test.serverCount then
      releaseServers lib o e.releaseWorks descriptor s
    else
      ((bookAddl lib o e descriptor job).seq fun s =>
        if job.test.addPoolServerCount ≠ 0 ∧ s.addlServers.length ≠ job.test.addPoolServerCount then
          releaseServers lib o e.releaseWorks descriptor s
        else
          ((mayRaise e.urlRaises).seq <| (markUnreachable e).seq <| (mayRaise e.jobRaises).seq <|
            inviteAndDispatch lib o e descriptor job) s) s

/-- The body of the loop, inside `try`. The later tests of `options.noLaunch` are never reached with it
    set. -/
def body (lib : Library) (o : Options) (e : Env) : Prog State Unit := fun s =>
  if o.noLaunch then
    ((mayRaise e.printRaises).seq <| (assign "descriptor").seq <| (mayRaise e.urlRaises).seq <|
      popTest 0) s
  else
    match chooseJob o e s.testsToLaunch with
    | .error _ => (.error (), s)
    | .ok none => (.ok (), s)
    | .ok (some job) =>
        ((assign (rawDescriptor lib o e job.test)).seq <| (mayRaise e.quoteRaises).seq <|
          (assign (jobDescriptor lib o e job.test)).seq <|
            attempt lib o e (jobDescriptor lib o e job.test) job) s

/-- The handler; what its own release raises is passed over. -/
def handler (lib : Library) (o : Options) (e : Env) : Prog State Unit := fun s =>
  match s.descriptor with
  | none => (.ok (), s)
  | some descriptor => (.ok (), (releaseServers lib o e.handlerWorks descriptor s).2)

/-- One iteration of `while len(testsToLaunch) > 0`. -/
def iterate (lib : Library) (o : Options) (e : Env) (s : State) : State :=
  ((body lib o e).tryExcept (fun _ => some (handler lib o e))
    { s with world := e.others s.world, calls := [] }).2

/-- The states after each iteration of a run. -/
def trace (lib : Library) (o : Options) : List Env → State → List State
  | [], _ => []
  | e :: rest, s =>
      if s.testsToLaunch = [] then []
      else iterate lib o e s :: trace lib o rest (iterate lib o e s)

end Dispatcher

end TestInfra
