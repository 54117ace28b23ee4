import Mathlib.Algebra.Order.BigOperators.Group.Finset
import Mathlib.Algebra.Order.Ring.Int
import TestInfra.DynVm.GetServers
import TestInfra.Lib.Interleave

set_option autoImplicit false

/-! # When the reservations balance

Each request in flight has a share of the table: what it has raised and not lowered yet. The accounts
are in order when the table is, for every label, the sum of what was there before and of the shares. A
request keeps them in order if it never lowers more than its share and always under its own labels
(`Accounts`); `Request.Meets` says which answers of the hosts make it do so. -/

namespace TestInfra

namespace DynVm

open Interleave

/-- The labels of a host stand for the labels of a request, on the entries that anybody uses. -/
def Agree (used : Option String → Prop) (labels host : Labels) : Prop :=
  ∀ l, used l → weight host l = weight labels l

theorem Agree.refl (used : Option String → Prop) (labels : Labels) : Agree used labels labels :=
  fun _ _ => rfl

/-- A request whose share is `h` can make these calls and then has the share `h'`. -/
inductive Accounts (used : Option String → Prop) (labels : Labels) : Int → List Op → Int → Prop
  | nil (h : Int) : Accounts used labels h [] h
  | increase {h h' c : Int} {ops : List Op} (hc : 0 ≤ c) (hops : Accounts used labels (h + c) ops h') :
      Accounts used labels h (.increase c labels :: ops) h'
  | decrease {h h' c : Int} {ls : Labels} {ops : List Op} (hc : 0 ≤ c) (hle : c ≤ h)
      (hls : Agree used labels ls) (hops : Accounts used labels (h - c) ops h') :
      Accounts used labels h (.decrease c ls :: ops) h'

variable {used : Option String → Prop} {labels : Labels}

theorem Accounts.append {h h' h'' : Int} {ops ops' : List Op} (hops : Accounts used labels h ops h')
    (hops' : Accounts used labels h' ops' h'') : Accounts used labels h (ops ++ ops') h'' := by
  induction hops with
  | nil h => exact hops'
  | increase hc _ ih => exact .increase hc (ih hops')
  | decrease hc hle hls _ ih => exact .decrease hc hle hls (ih hops')

/-- Giving back the whole share ends a request. -/
theorem Accounts.giveBack {h : Int} (hh : 0 ≤ h) : Accounts used labels h [.decrease h labels] 0 :=
  .decrease hh le_rfl (Agree.refl used labels) (by rw [sub_self]; exact .nil 0)

/-! ## The answers of the hosts -/

/-- `create_vm` reported no error. -/
def Host.created (host : Host) (name : String) : Bool := (host.vm name).error = ""

/-- The check loop does not pass over the VM. -/
def Host.listed (host : Host) (name : String) : Bool :=
  !(name.endsWith "_error" || (host.vm name).ip = some "")

/-- The check loop keeps the VM. -/
def Host.passes (checkvms : Bool) (host : Host) (name : String) : Bool :=
  (host.vm name).overprovisioned = some false && (!checkvms || (host.vm name).sshOk)

/-- The check loop deletes the VM. -/
def Host.fails (checkvms : Bool) (host : Host) (name : String) : Bool :=
  (host.vm name).overprovisioned = some true ||
    ((host.vm name).overprovisioned = some false && checkvms && !(host.vm name).sshOk)

/-- What a call of `create_vms_single_host` has to meet on the host. Every VM either comes without
    error and with an address or fails altogether. If any is created, the host carries the labels of
    the request, the session is closed without error, and either all VMs created pass the check, or
    there is just one and it is deleted again. -/
def Host.Meets (used : Option String → Prop) (checkvms : Bool) (labels : Labels) (host : Host)
    (names : List String) : Prop :=
  host.overprovisioned = some false → host.opens = true →
    (∀ name ∈ names, (host.vm name).exits = false ∧ host.listed name = host.created name) ∧
      ((∀ name ∈ names, host.created name = false) ∨
        (Agree used labels host.labels ∧ host.logoutRaises = false ∧
          ((∀ name ∈ names, host.created name = true → host.passes checkvms name = true) ∨
            ∃ name, names.filter host.created = [name] ∧ host.fails checkvms name = true)))

theorem Host.listed_eq_false {host : Host} {name : String} (h : host.listed name = false) :
    (name.endsWith "_error" || decide ((host.vm name).ip = some "")) = true := by
  simpa only [Host.listed, Bool.not_eq_false'] using h

theorem createVms_of_no_exit {host : Host} {names : List String}
    (hexit : ∀ name ∈ names, (host.vm name).exits = false) :
    createVms host names
      = ((names.filter host.created).map fun _ => .decrease 1 host.labels, true) := by
  induction names with
  | nil => rfl
  | cons name rest ih =>
      have ih := ih fun n hn => hexit n (List.mem_cons_of_mem _ hn)
      rw [createVms, if_neg (by rw [hexit name List.mem_cons_self]; exact Bool.false_ne_true), ih]
      by_cases herr : (host.vm name).error = "" <;> simp [Host.created, herr]

/-- Lowering by one, once for every VM created. -/
theorem accounts_created {host : Host} (hagree : Agree used labels host.labels) {h : Int}
    {names : List String} (hle : (names.length : Int) ≤ h) :
    Accounts used labels h (names.map fun _ => .decrease 1 host.labels) (h - names.length) := by
  induction names generalizing h with
  | nil => simpa using Accounts.nil h
  | cons name rest ih =>
      rw [List.length_cons, Nat.cast_succ] at hle
      have hrest := ih (h := h - 1) (by omega)
      have hsub : h - ((name :: rest).length : Int) = h - 1 - (rest.length : Int) := by
        rw [List.length_cons, Nat.cast_succ]; omega
      rw [List.map_cons, hsub]
      exact .decrease (by omega) (by omega) hagree hrest

theorem checkVms_of_passes {checkvms : Bool} {host : Host} {names : List String}
    (hlisted : ∀ name ∈ names, host.listed name = host.created name)
    (hpass : ∀ name ∈ names, host.created name = true → host.passes checkvms name = true) :
    checkVms checkvms host labels names = ([], some (names.filter host.created)) := by
  induction names with
  | nil => rfl
  | cons name rest ih =>
      have ih := ih (fun n hn => hlisted n (List.mem_cons_of_mem _ hn))
        (fun n hn => hpass n (List.mem_cons_of_mem _ hn))
      have hlist := hlisted name List.mem_cons_self
      have hpassed := hpass name List.mem_cons_self
      rw [checkVms, ih]
      by_cases hcreated : host.created name = true
      · have hpassed := hpassed hcreated
        rw [hcreated] at hlist
        simp only [Host.listed, Bool.not_eq_true', Host.passes, Bool.and_eq_true, Bool.or_eq_true,
          decide_eq_true_eq] at hlist hpassed
        rw [List.filter_cons_of_pos hcreated]
        simp only [hlist, hpassed.1, Bool.false_eq_true, if_false, Bool.or_false]
        rcases hpassed.2 with hcheck | hssh
        · have hoff : checkvms = false := by simpa using hcheck
          simp [hoff]
        · simp [hssh]
      · have hlist := Host.listed_eq_false (hlist.trans (Bool.eq_false_iff.2 hcreated))
        rw [List.filter_cons_of_neg hcreated]
        simp only [hlist, if_true]

/-- The loop stops with an exception right after the first VM it deletes. -/
theorem checkVms_of_fails {checkvms : Bool} {host : Host} {names : List String} {bad : String}
    (hlisted : ∀ name ∈ names, host.listed name = host.created name)
    (hone : names.filter host.created = [bad]) (hfail : host.fails checkvms bad = true) :
    checkVms checkvms host labels names = ([.increase 1 labels], none) := by
  induction names with
  | nil => cases hone
  | cons name rest ih =>
      have ih := ih (fun n hn => hlisted n (List.mem_cons_of_mem _ hn))
      have hlist := hlisted name List.mem_cons_self
      rw [checkVms]
      by_cases hcreated : host.created name = true
      · rw [List.filter_cons_of_pos hcreated, List.cons_eq_cons] at hone
        obtain ⟨rfl, -⟩ := hone
        rw [hcreated] at hlist
        simp only [Host.listed, Bool.not_eq_true'] at hlist
        have herr : (host.vm name).error = "" := by simpa [Host.created] using hcreated
        simp only [hlist, Bool.false_eq_true, if_false]
        simp only [Host.fails, Bool.or_eq_true, Bool.and_eq_true, decide_eq_true_eq] at hfail
        rcases hfail with hover | ⟨⟨hover, hcheck⟩, hssh⟩
        · simp [hover, herr]
        · have hssh : (host.vm name).sshOk = false := by simpa using hssh
          simp [hover, herr, hcheck, hssh]
      · rw [List.filter_cons_of_neg hcreated] at hone
        have hlist := Host.listed_eq_false (hlist.trans (Bool.eq_false_iff.2 hcreated))
        simp only [hlist, if_true, ih hone]

/-! ## One host, all hosts, the whole request -/

/-- How the share of a request changes over a call of `create_vms_single_host`. -/
def Attempt.ShareAfter (names : List String) (h h' : Int) : Attempt → Prop
  | .returned kept => kept.Sublist names ∧ h' = h - kept.length
  | .raised => h' = h
  | .exited => False

theorem createVmsSingleHost_accounts {checkvms : Bool} {host : Host} {names : List String} {h : Int}
    (hmeets : host.Meets used checkvms labels names) (hle : (names.length : Int) ≤ h) :
    ∃ h', Accounts used labels h (createVmsSingleHost checkvms host names labels).1 h' ∧
      (createVmsSingleHost checkvms host names labels).2.ShareAfter names h h' := by
  unfold createVmsSingleHost
  split
  case isFalse => exact ⟨h, .nil h, rfl⟩
  case isTrue hopen =>
    rw [Bool.and_eq_true, decide_eq_true_eq] at hopen
    obtain ⟨hnames, hcases⟩ := hmeets hopen.1 hopen.2
    have hlisted : ∀ name ∈ names, host.listed name = host.created name :=
      fun name hname => (hnames name hname).2
    have hcreatedLe : ((names.filter host.created).length : Int) ≤ h := by
      have := List.length_filter_le host.created names
      omega
    rw [createVms_of_no_exit fun name hname => (hnames name hname).1]
    rcases hcases with hnone | ⟨hagree, hlogout, hpass | ⟨bad, hone, hfail⟩⟩
    · -- nothing was created: nothing is lowered, and the loop has nothing to check
      have hempty : names.filter host.created = [] :=
        List.filter_eq_nil_iff.2 fun name hname => Bool.eq_false_iff.1 (hnone name hname)
      rw [checkVms_of_passes hlisted fun name hname hc => by
        rw [hnone name hname] at hc; cases hc]
      simp only [hempty, List.map_nil, List.nil_append, if_true]
      split
      · exact ⟨h, .nil h, rfl⟩
      · exact ⟨h, .nil h, List.nil_sublist _, by simp⟩
    · rw [checkVms_of_passes hlisted hpass]
      simp only [hlogout, Bool.false_eq_true, if_false, if_true, List.append_nil]
      exact ⟨_, accounts_created hagree hcreatedLe, List.filter_sublist, rfl⟩
    · -- one VM was created and taken off the share; deleting it puts it back
      rw [checkVms_of_fails hlisted hone hfail]
      simp only [hlogout, Bool.false_eq_true, if_false, if_true]
      have hcreated := accounts_created hagree hcreatedLe
      refine ⟨h, hcreated.append (.increase (by omega) ?_), rfl⟩
      rw [hone, List.length_singleton, Nat.cast_one, sub_add_cancel]
      exact .nil h

/-- What the loop over the hosts has to meet: every call of `create_vms_single_host` it makes meets
    `Host.Meets`. -/
def DistributeMeets (used : Option String → Prop) (checkvms : Bool) (labels : Labels)
    (order : List String → List String) : List (Int × Host) → List String → Prop
  | [], _ => True
  | (available, host) :: rest, need =>
      if need = [] then True
      else if 0 < available then
        let names := (order need).take (min available need.length).toNat
        host.Meets used checkvms labels names ∧
          match (createVmsSingleHost checkvms host names labels).2 with
          | .exited => True
          | .raised => DistributeMeets used checkvms labels order rest need
          | .returned kept => DistributeMeets used checkvms labels order rest (need.diff kept)
      else DistributeMeets used checkvms labels order rest need

theorem length_diff_add {kept need : List String} (h : kept.Subperm need) :
    ((need.diff kept).length : Int) + kept.length = need.length := by
  have hperm := List.subperm_append_diff_self_of_count_le fun x _ => h.count_le x
  have hlen := hperm.length_eq
  rw [List.length_append] at hlen
  omega

/-- The share stays the number of names still needed. -/
theorem distribute_accounts {checkvms : Bool} {order : List String → List String}
    (horder : ∀ need, (order need).Perm need) {hosts : List (Int × Host)} {need : List String}
    (hmeets : DistributeMeets used checkvms labels order hosts need) :
    ∃ merged, (distribute checkvms labels order hosts need).2 = some merged ∧
      merged.length ≤ need.length ∧
      Accounts used labels need.length (distribute checkvms labels order hosts need).1
        (need.length - merged.length) := by
  induction hosts generalizing need with
  | nil => exact ⟨[], rfl, Nat.zero_le _, by simpa [distribute] using Accounts.nil _⟩
  | cons entry rest ih =>
      obtain ⟨available, host⟩ := entry
      rw [DistributeMeets] at hmeets
      rw [distribute]
      split at hmeets
      · next hempty => exact ⟨[], by simp [hempty], Nat.zero_le _, by simpa [hempty] using .nil _⟩
      next hempty =>
      split at hmeets
      · next havailable =>
        rw [if_neg hempty, if_pos havailable]
        simp only at hmeets ⊢
        generalize hnames : (order need).take (min available need.length).toNat = names at hmeets ⊢
        obtain ⟨hhost, hnext⟩ := hmeets
        have hsub : names.Subperm need :=
          (hnames ▸ (List.take_sublist _ _).subperm).trans (horder need).subperm
        have hle : (names.length : Int) ≤ need.length := by exact_mod_cast hsub.length_le
        obtain ⟨h', hops, hshare⟩ := createVmsSingleHost_accounts hhost hle
        cases hres : createVmsSingleHost checkvms host names labels with
        | mk ops attempt =>
            rw [hres] at hnext hops hshare
            cases attempt with
            | exited => exact hshare.elim
            | raised =>
                obtain ⟨merged, hmerged, hlen, hrest⟩ := ih hnext
                obtain rfl : h' = need.length := hshare
                exact ⟨merged, hmerged, hlen, hops.append hrest⟩
            | returned kept =>
                obtain ⟨merged, hmerged, hlen, hrest⟩ := ih hnext
                obtain ⟨hkept, rfl⟩ := hshare
                have hdiff := length_diff_add (hkept.subperm.trans hsub)
                have hsplit : ((kept ++ merged).length : Int) = kept.length + merged.length := by
                  rw [List.length_append, Nat.cast_add]
                refine ⟨kept ++ merged, by simp only [hmerged, Option.map_some], by omega, ?_⟩
                have hshift : (need.length : Int) - kept.length = (need.diff kept).length := by omega
                have hend : (need.length : Int) - (kept ++ merged).length
                    = (need.diff kept).length - merged.length := by omega
                rw [hend]
                rw [hshift] at hops
                exact hops.append hrest
      · next havailable =>
        rw [if_neg hempty, if_neg havailable]
        exact ih hmeets

/-- What a request has to meet: it asks for no negative number of VMs, the availability of the hosts
    can be read, and every host it turns to meets `Host.Meets`. -/
def Request.Meets (used : Option String → Prop) (r : Request) : Prop :=
  0 ≤ r.count ∧
    match r.xhost with
    | some host => host.Meets used r.checkvms r.labels (generateVmNames r.username r.count)
    | none =>
        match r.hosts with
        | none => False
        | some hosts =>
            r.count ≤ max ((hosts.map Prod.fst).sum - (r.reserved - r.count)) 0 →
              DistributeMeets used r.checkvms r.labels r.order hosts
                (generateVmNames r.username r.count)

theorem length_generateVmNames (name : String) {count : Int} (hcount : 0 ≤ count) :
    ((generateVmNames name count).length : Int) = count := by
  unfold generateVmNames
  split
  · next h => simp [h]
  split
  · next h => simp [h]
  · simp [hcount]

/-- **A request that meets its condition gives back exactly what it took**, call by call. -/
theorem getserversService_accounts {r : Request} (hmeets : r.Meets used) :
    Accounts used r.labels 0 (getserversService r) 0 := by
  obtain ⟨hcount, hhosts⟩ := hmeets
  have hlen := length_generateVmNames r.username hcount
  refine .increase hcount ?_
  rw [zero_add]
  cases hx : r.xhost with
  | some host =>
      rw [hx] at hhosts
      obtain ⟨h', hops, hshare⟩ := createVmsSingleHost_accounts hhosts hlen.le
      simp only
      cases hres : createVmsSingleHost r.checkvms host (generateVmNames r.username r.count) r.labels with
      | mk ops attempt =>
          rw [hres] at hops hshare
          cases attempt with
          | exited => exact hshare.elim
          | raised =>
              obtain rfl : h' = r.count := hshare
              exact hops.append (.giveBack hcount)
          | returned kept =>
              obtain ⟨hkept, rfl⟩ := hshare
              have := hkept.length_le
              exact hops.append (.giveBack (by omega))
  | none =>
      rw [hx] at hhosts
      cases hh : r.hosts with
      | none => rw [hh] at hhosts; exact hhosts.elim
      | some hosts =>
          rw [hh] at hhosts
          simp only at hhosts ⊢
          split
          · exact .giveBack hcount
          · next hgo =>
            obtain ⟨merged, hmerged, hle, hops⟩ := distribute_accounts r.order_perm (hhosts (by omega))
            rw [hlen] at hops
            cases hres : distribute r.checkvms r.labels r.order hosts
                (generateVmNames r.username r.count) with
            | mk ops out =>
                rw [hres] at hops hmerged
                obtain rfl : out = some merged := hmerged
                exact hops.append (.giveBack (by omega))

/-! ## Requests in flight -/

/-- A request in flight: its share of the table, and the calls it has still to make. -/
structure InFlight where
  share : Int
  todo : List Op

/-- The share after a call. -/
def Op.share (h : Int) : Op → Int
  | .increase c _ => h + c
  | .decrease c _ => h - c

/-- One call of one request. -/
def InFlight.next (table : Reserved) (q : InFlight) : Option (Reserved × InFlight) :=
  match q.todo with
  | [] => none
  | op :: rest => some (op.apply table, ⟨op.share q.share, rest⟩)

variable {T : Type*}

/-- All requests before their first call. -/
def startRequests (table : Reserved) (r : T → Request) : State T Reserved InFlight :=
  ⟨table, fun t => ⟨0, getserversService (r t)⟩⟩

/-- The entries that play a role: something is reserved there, or some request reserves there. -/
def Used (table : Reserved) (r : T → Request) (l : Option String) : Prop :=
  amount table l ≠ 0 ∨ ∃ t, weight (r t).labels l ≠ 0

theorem not_used {table : Reserved} {r : T → Request} {l : Option String} (hl : ¬ Used table r l) :
    amount table l = 0 ∧ ∀ t, weight (r t).labels l = 0 := by
  unfold Used at hl
  push Not at hl
  exact hl

variable [Fintype T]

/-- What is reserved by all requests together under `l`. -/
def shares (r : T → Request) (s : State T Reserved InFlight) (l : Option String) : Int :=
  ∑ t, (s.thread t).share * weight (r t).labels l

/-- The accounts are in order. -/
structure InOrder (table : Reserved) (r : T → Request) (s : State T Reserved InFlight) : Prop where
  accounts : ∀ t, Accounts (Used table r) (r t).labels (s.thread t).share (s.thread t).todo 0
  nonneg : ∀ t, 0 ≤ (s.thread t).share
  amount_eq : ∀ l, amount s.shared l = amount table l + shares r s l

/-- What the requests have to meet: every one of them meets its condition, for the entries that play a
    role. -/
def RequestsMeet (table : Reserved) (r : T → Request) : Prop :=
  ∀ t, (r t).Meets (Used table r)

theorem inOrder_start {table : Reserved} {r : T → Request} (hmeets : RequestsMeet table r) :
    InOrder table r (startRequests table r) where
  accounts t := getserversService_accounts (hmeets t)
  nonneg _ := le_rfl
  amount_eq l := by simp [startRequests, shares]

theorem share_mul_le_shares {table : Reserved} {r : T → Request} {s : State T Reserved InFlight}
    (hin : InOrder table r s) (t : T) (l : Option String) :
    (s.thread t).share * weight (r t).labels l ≤ shares r s l :=
  Finset.single_le_sum (f := fun u => (s.thread u).share * weight (r u).labels l)
    (fun u _ => mul_nonneg (hin.nonneg u) (weight_nonneg _ _)) (Finset.mem_univ t)

/-- Lowering within the share of the request cuts nothing off. -/
theorem amount_decrease_of_inOrder {table : Reserved} (htable : ∀ l, 0 ≤ amount table l)
    {r : T → Request} {s : State T Reserved InFlight} (hin : InOrder table r s) {t : T} {c : Int}
    {ls : Labels} (hc : 0 ≤ c) (hle : c ≤ (s.thread t).share)
    (hls : Agree (Used table r) (r t).labels ls) (l : Option String) :
    amount (decreaseReserved c ls s.shared) l = amount s.shared l - c * weight (r t).labels l := by
  have hamount := hin.amount_eq l
  by_cases hl : Used table r l
  · have hweight := weight_nonneg (r t).labels l
    have hshare := share_mul_le_shares hin t l
    have hmine : c * weight (r t).labels l ≤ (s.thread t).share * weight (r t).labels l :=
      mul_le_mul_of_nonneg_right hle hweight
    have hpos : 0 ≤ c * weight (r t).labels l := mul_nonneg hc hweight
    have htablel := htable l
    rw [amount_decreaseReserved hc ls (by omega), hls l hl]
    omega
  · -- nothing is reserved there, so there is nothing to lower
    obtain ⟨htable0, hweight⟩ := not_used hl
    have hzero : amount s.shared l = 0 := by
      rw [hamount, htable0, shares, Finset.sum_eq_zero fun u _ => by rw [hweight u, mul_zero]]
      rfl
    have hpos : 0 ≤ c * weight ls l := mul_nonneg hc (weight_nonneg _ _)
    rw [amount_decreaseReserved hc ls hzero.ge, hzero, hweight t]
    omega

variable [DecidableEq T]

theorem shares_move (r : T → Request) (s : State T Reserved InFlight) (t : T) (table' : Reserved)
    (q : InFlight) (l : Option String) :
    shares r (s.move t table' q) l
      = shares r s l + (q.share - (s.thread t).share) * weight (r t).labels l := by
  unfold shares
  rw [State.sum_move (fun u (q : InFlight) => q.share * weight (r u).labels l), sub_mul]

theorem InOrder.move {table : Reserved} {r : T → Request} {s : State T Reserved InFlight}
    (hin : InOrder table r s) {t : T} {table' : Reserved} {q : InFlight}
    (hacc : Accounts (Used table r) (r t).labels q.share q.todo 0) (hnonneg : 0 ≤ q.share)
    (hamount : ∀ l, amount table' l
      = amount s.shared l + (q.share - (s.thread t).share) * weight (r t).labels l) :
    InOrder table r (s.move t table' q) where
  accounts := State.forall_move
    (P := fun u q => Accounts (Used table r) (r u).labels q.share q.todo 0) s t table' q hacc
    fun u _ => hin.accounts u
  nonneg := State.forall_move (P := fun _ q => 0 ≤ q.share) s t table' q hnonneg
    fun u _ => hin.nonneg u
  amount_eq l := by
    rw [State.move_shared, hamount, shares_move, hin.amount_eq, add_assoc]

/-- One call keeps the accounts in order. -/
theorem inOrder_move {table : Reserved} (htable : ∀ l, 0 ≤ amount table l) {r : T → Request}
    {s : State T Reserved InFlight} (hin : InOrder table r s) {t : T} {table' : Reserved} {q : InFlight}
    (hnext : InFlight.next s.shared (s.thread t) = some (table', q)) :
    InOrder table r (s.move t table' q) := by
  have hacc := hin.accounts t
  have hnonneg := hin.nonneg t
  unfold InFlight.next at hnext
  split at hnext
  · cases hnext
  next op rest htodo =>
  rw [htodo] at hacc
  obtain ⟨rfl, rfl⟩ := Prod.mk.inj (Option.some.inj hnext)
  cases hacc with
  | @increase _ _ c _ hc hops =>
      refine hin.move hops (Int.add_nonneg hnonneg hc) fun l => ?_
      rw [Op.apply, amount_increaseReserved, Op.share, add_sub_cancel_left]
  | @decrease _ _ c ls _ hc hle hls hops =>
      refine hin.move hops (Int.sub_nonneg_of_le hle) fun l => ?_
      rw [Op.apply, amount_decrease_of_inOrder htable hin hc hle hls, Op.share, sub_sub_cancel_left,
        neg_mul, sub_eq_add_neg]

theorem inOrder_of_reachable {table : Reserved} (htable : ∀ l, 0 ≤ amount table l) {r : T → Request}
    (hmeets : RequestsMeet table r) {s : State T Reserved InFlight}
    (h : Reachable (ofNext fun _ => InFlight.next) (startRequests table r) s) :
    InOrder table r s :=
  h.invariant (inOrder_start hmeets) fun _ _ _ _ hin hnext => inOrder_move htable hin hnext

/-- A host that creates every VM it is asked for. -/
def readyHost (labels : Labels) (sshOk : String → Bool) : Host where
  labels := labels
  overprovisioned := some false
  opens := true
  vm name := ⟨false, some "10.0.0.1", "", sshOk name, some false⟩
  logoutRaises := false

/-- A request for VMs on a given host, with `checkvms=true`. -/
def requestOn (host : Host) (count : Int) (labels : Labels) : Request where
  username := "vm"
  count := count
  checkvms := true
  labels := labels
  xhost := some host
  hosts := some []
  reserved := 0
  order := id
  order_perm := List.Perm.refl

/-- Two requests for one VM each. -/
def twoRequests (_ : Bool) : Request :=
  requestOn (readyHost (some ["a"]) fun _ => true) 1 (some ["a"])

/-- The second request runs on a host that carries the label of the first one besides its own. -/
def twoLabels : Bool → Request
  | false => requestOn (readyHost (some ["b"]) fun _ => true) 1 (some ["b"])
  | true => requestOn (readyHost (some ["a", "b"]) fun _ => true) 1 (some ["a"])

/-- The second request gets two VMs, the first of which fails the check. -/
def badCheck : Bool → Request
  | false => requestOn (readyHost (some ["a"]) fun _ => true) 1 (some ["a"])
  | true => requestOn (readyHost (some ["a"]) fun name => name = "vm2") 2 (some ["a"])

end DynVm

end TestInfra
