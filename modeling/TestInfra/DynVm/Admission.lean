import Mathlib.Algebra.BigOperators.Fin
import Mathlib.Algebra.BigOperators.Group.Finset.Piecewise
import Mathlib.Algebra.BigOperators.Ring.Finset
import Mathlib.Algebra.Order.BigOperators.Group.Finset
import Mathlib.Algebra.Order.Ring.Int
import TestInfra.DynVm.Reservations
import TestInfra.Lib.Interleave

set_option autoImplicit false

/-! # Admission of `getservers` requests

`getservers_service` reserves first, then reads how many VMs the hosts can still take, then reads the
reservations, and goes on if the difference covers its own VMs. The requests here carry the same labels
and every VM is created; what failed creations do to the accounts is a different matter. A VM that
another request creates **between the two reads** is in neither number: it was still available at the
first and is no longer reserved at the second. -/

namespace TestInfra

namespace DynVm

open Interleave

variable {n : ℕ}

/-- The xen hosts: how many VMs each can take, and its labels. -/
structure Hosts (n : ℕ) where
  capacity : Fin n → ℕ
  labels : Fin n → Labels

/-- The reservations and the VMs on each host. -/
structure Service (n : ℕ) where
  table : Reserved
  created : Fin n → ℕ

/-- `available_counts` of `get_all_available_count`: 0 for a host with too many VMs. -/
def availableCounts (hosts : Hosts n) (x : Service n) : Fin n → ℕ :=
  fun i => hosts.capacity i - x.created i

/-- Where a request is. -/
inductive Phase (n : ℕ) where
  | start
  | raised
  /-- `get_all_available_count` has answered. -/
  | sawAvailable (counts : Fin n → ℕ)
  /-- `get_reserved` has answered. -/
  | sawReserved (counts : Fin n → ℕ) (reserved : Int)
  /-- Admitted: the hosts for the VMs to come, and the number of VMs created. -/
  | creating (todo : List (Fin n)) (merged : ℕ)
  | returned

/-- `vm_count > count` fails. -/
def admits (count : Int) (counts : Fin n → ℕ) (reserved : Int) : Bool :=
  !(count > max (∑ i, (counts i : Int) - (reserved - count)) 0)

/-- The distribution of the VMs over the hosts: as many as each can take, in order, until there is
    nothing left to distribute. -/
def plan (counts : Fin n → ℕ) : List (Fin n) → ℕ → List (Fin n)
  | [], _ => []
  | i :: rest, need =>
      if need = 0 then []
      else List.replicate (min (counts i) need) i ++ plan counts rest (need - min (counts i) need)

/-- The next step of a request. -/
def Phase.next (hosts : Hosts n) (labels : Labels) (count : Int) (x : Service n) :
    Phase n → Option (Service n × Phase n)
  | .start => some (⟨increaseReserved count labels x.table, x.created⟩, .raised)
  | .raised => some (x, .sawAvailable (availableCounts hosts x))
  | .sawAvailable counts => some (x, .sawReserved counts (getReserved labels x.table))
  | .sawReserved counts reserved =>
      if admits count counts reserved then
        some (x, .creating (plan counts (List.finRange n) count.toNat) 0)
      else some (⟨decreaseReserved count labels x.table, x.created⟩, .returned)
  | .creating (i :: todo) merged =>
      some (⟨decreaseReserved 1 (hosts.labels i) x.table,
        Function.update x.created i (x.created i + 1)⟩, .creating todo (merged + 1))
  | .creating [] merged =>
      some (⟨decreaseReserved (count - merged) labels x.table, x.created⟩, .returned)
  | .returned => none

/-- The VMs that an admitted request has still to create. -/
def Phase.toCreate : Phase n → ℕ
  | .creating todo _ => todo.length
  | _ => 0

/-- Between the two reads. -/
def Phase.reading : Phase n → Bool
  | .sawAvailable _ => true
  | _ => false

/-- The host on which the step to come creates a VM. -/
def Phase.target : Phase n → Option (Fin n)
  | .creating (i :: _) _ => some i
  | _ => none

variable {T : Type*}

/-- The step to come is safe: a VM is only created on a host that has room for it, and while no request
    is between its two reads. -/
def Undisturbed (hosts : Hosts n) (s : State T (Service n) (Phase n)) (t : T) : Prop :=
  ∀ i ∈ (s.thread t).target,
    s.shared.created i < hosts.capacity i ∧ ∀ u, (s.thread u).reading = false

instance [Fintype T] (hosts : Hosts n) (s : State T (Service n) (Phase n)) (t : T) :
    Decidable (Undisturbed hosts s t) :=
  inferInstanceAs (Decidable (∀ i ∈ (s.thread t).target,
    s.shared.created i < hosts.capacity i ∧ ∀ u, (s.thread u).reading = false))

/-- All requests before their first step. -/
def startAdmission (x : Service n) : State T (Service n) (Phase n) := ⟨x, fun _ => .start⟩

theorem length_plan_le (counts : Fin n → ℕ) (is : List (Fin n)) (need : ℕ) :
    (plan counts is need).length ≤ need := by
  induction is generalizing need with
  | nil => exact Nat.zero_le need
  | cons i rest ih =>
      rw [plan]
      split
      · exact Nat.zero_le need
      · have hrest := ih (need - min (counts i) need)
        rw [List.length_append, List.length_replicate]
        omega

/-! ## The steps are those of `getservers_service`

On hosts that create every VM, the calls on the reservations that the phases go through are the ones that
`getserversService` makes, whatever the other requests do in between (`calls_of_reachable`). -/

/-- The hosts as the loop over them meets them, with the availability it was told. -/
def Hosts.ready (hosts : Hosts n) (counts : Fin n → ℕ) (is : List (Fin n)) : List (Int × Host) :=
  is.map fun i => ((counts i : Int), readyHost (hosts.labels i) fun _ => true)

theorem createVmsSingleHost_ready (checkvms : Bool) (labels hostLabels : Labels) {names : List String}
    (hnames : ∀ name ∈ names, name.endsWith "_error" = false) :
    createVmsSingleHost checkvms (readyHost hostLabels fun _ => true) names labels
      = (names.map fun _ => .decrease 1 hostLabels, .returned names) := by
  have hlisted : ∀ name ∈ names, (readyHost hostLabels fun _ => true).listed name
      = (readyHost hostLabels fun _ => true).created name := by
    intro name hname
    simp [Host.listed, Host.created, readyHost, hnames name hname]
  have hpass : ∀ name ∈ names, (readyHost hostLabels fun _ => true).created name = true →
      (readyHost hostLabels fun _ => true).passes checkvms name = true := by
    intro name _ _
    simp [Host.passes, readyHost]
  have hall : names.filter (readyHost hostLabels fun _ => true).created = names :=
    List.filter_eq_self.2 fun name _ => rfl
  unfold createVmsSingleHost
  rw [createVms_of_no_exit fun _ _ => rfl, checkVms_of_passes hlisted hpass, hall]
  simp [readyHost]

theorem distribute_ready (hosts : Hosts n) (counts : Fin n → ℕ) (checkvms : Bool) (labels : Labels)
    {order : List String → List String} (horder : ∀ need, (order need).Perm need) (is : List (Fin n))
    {need : List String} (hneed : ∀ name ∈ need, name.endsWith "_error" = false) :
    ∃ merged, distribute checkvms labels order (hosts.ready counts is) need
        = ((plan counts is need.length).map fun i => .decrease 1 (hosts.labels i), some merged) ∧
      merged.length = (plan counts is need.length).length := by
  induction is generalizing need with
  | nil => exact ⟨[], rfl, rfl⟩
  | cons i rest ih =>
      rw [Hosts.ready, List.map_cons, distribute, plan]
      by_cases hempty : need = []
      · exact ⟨[], by simp [hempty], by simp [hempty]⟩
      have hlength : need.length ≠ 0 := fun h => hempty (List.length_eq_zero_iff.1 h)
      rw [if_neg hempty, if_neg hlength]
      by_cases hcount : counts i = 0
      · obtain ⟨merged, hmerged, hlen⟩ := ih hneed
        rw [Hosts.ready] at hmerged
        exact ⟨merged, by simp [hcount, hmerged], by simp [hcount, hlen]⟩
      · have havailable : (0 : Int) < (counts i : Int) := by omega
        have htake : (min (counts i : Int) (need.length : Int)).toNat
            = min (counts i) need.length := by omega
        have hsub : ((order need).take (min (counts i) need.length)).Subperm need :=
          (List.take_sublist _ _).subperm.trans (horder need).subperm
        have hlen : ((order need).take (min (counts i) need.length)).length
            = min (counts i) need.length := by
          rw [List.length_take, (horder need).length_eq]
          omega
        rw [if_pos havailable, htake]
        generalize (order need).take (min (counts i) need.length) = names at hsub hlen ⊢
        have hdiff := length_diff_add hsub
        have hrest : need.length - min (counts i) need.length = (need.diff names).length := by omega
        have hneedRest : ∀ name ∈ need.diff names, name.endsWith "_error" = false :=
          fun name hname => hneed name (List.diff_subset _ _ hname)
        obtain ⟨merged, hmerged, hmergedLen⟩ := ih hneedRest
        rw [Hosts.ready] at hmerged
        have hhost := createVmsSingleHost_ready checkvms labels (hosts.labels i)
          fun name hname => hneed name (hsub.subset hname)
        rw [hrest, ← hlen]
        refine ⟨names ++ merged, ?_, ?_⟩
        · simp only [hhost, hmerged, Option.map_some, List.map_append, List.map_replicate,
            List.map_const']
        · rw [List.length_append, List.length_append, hmergedLen, List.length_replicate]

/-- The calls on the reservations of a request that was told these counts and reservations: reserve, test,
    create on the planned hosts, give back the rest. -/
def toldCalls (hosts : Hosts n) (labels : Labels) (count : Int) (counts : Fin n → ℕ) (reserved : Int) :
    List Op :=
  .increase count labels ::
    if admits count counts reserved then
      ((plan counts (List.finRange n) count.toNat).map fun i => .decrease 1 (hosts.labels i)) ++
        [.decrease (count - (plan counts (List.finRange n) count.toNat).length) labels]
    else [.decrease count labels]

theorem getserversService_ready (hosts : Hosts n) (counts : Fin n → ℕ) {r : Request}
    (hcount : 0 ≤ r.count) (hxhost : r.xhost = none)
    (hhosts : r.hosts = some (hosts.ready counts (List.finRange n)))
    (hnames : ∀ name ∈ generateVmNames r.username r.count, name.endsWith "_error" = false) :
    getserversService r = toldCalls hosts r.labels r.count counts r.reserved := by
  have hlen : (generateVmNames r.username r.count).length = r.count.toNat := by
    have := length_generateVmNames r.username hcount
    omega
  have hsum : ((hosts.ready counts (List.finRange n)).map Prod.fst).sum = ∑ i, (counts i : Int) := by
    rw [Hosts.ready, List.map_map, Fin.sum_univ_def]
    rfl
  obtain ⟨merged, hmerged, hmergedLen⟩ :=
    distribute_ready hosts counts r.checkvms r.labels r.order_perm (List.finRange n) hnames
  rw [hlen] at hmerged hmergedLen
  rw [getserversService, hxhost, hhosts, toldCalls]
  simp only [hsum, hmerged, hmergedLen]
  by_cases hgo : r.count > max (∑ i, (counts i : Int) - (r.reserved - r.count)) 0
  · have hrefuse : admits r.count counts r.reserved = false := by simp [admits, hgo]
    rw [if_pos hgo, if_neg (by rw [hrefuse]; exact Bool.false_ne_true)]
  · have hok : admits r.count counts r.reserved = true := by simp [admits, hgo]
    rw [if_neg hgo, if_pos hok]

/-- The call on the reservations in the step to come. -/
def Phase.call (hosts : Hosts n) (labels : Labels) (count : Int) : Phase n → List Op
  | .start => [.increase count labels]
  | .raised => []
  | .sawAvailable _ => []
  | .sawReserved counts reserved => if admits count counts reserved then [] else [.decrease count labels]
  | .creating (i :: _) _ => [.decrease 1 (hosts.labels i)]
  | .creating [] merged => [.decrease (count - merged) labels]
  | .returned => []

/-- A step does to the table what its call does. -/
theorem Phase.table_next {hosts : Hosts n} {labels : Labels} {count : Int} {x x' : Service n} {p p' : Phase n}
    (h : p.next hosts labels count x = some (x', p')) :
    x'.table = (p.call hosts labels count).foldl (fun table op => op.apply table) x.table := by
  cases p with
  | start => cases h; rfl
  | raised => cases h; rfl
  | sawAvailable counts => cases h; rfl
  | sawReserved counts reserved =>
      rw [Phase.next] at h
      rw [Phase.call]
      split at h
      · next hadmits => cases h; rw [if_pos hadmits]; rfl
      · next hadmits => cases h; rw [if_neg hadmits]; rfl
  | creating todo merged => cases todo <;> cases h <;> rfl
  | returned => cases h

/-- The step of a request that notes its calls. -/
def Phase.noteNext (hosts : Hosts n) (labels : Labels) (count : Int) (x : Service n) (q : Phase n × List Op) :
    Option (Service n × Phase n × List Op) :=
  (q.1.next hosts labels count x).map fun next => (next.1, next.2, q.2 ++ q.1.call hosts labels count)

/-- The calls that are noted are the first ones of a request that was told what this one was. -/
def Noted (hosts : Hosts n) (labels : Labels) (count : Int) (ops : List Op) : Phase n → Prop
  | .start => ops = []
  | .raised => ops = [.increase count labels]
  | .sawAvailable _ => ops = [.increase count labels]
  | .sawReserved _ _ => ops = [.increase count labels]
  | .creating todo merged => ∃ counts reserved,
      ops ++ ((todo.map fun i => .decrease 1 (hosts.labels i)) ++
        [.decrease (count - (merged + todo.length : ℕ)) labels]) = toldCalls hosts labels count counts reserved
  | .returned => ∃ counts reserved, ops = toldCalls hosts labels count counts reserved

theorem Noted.next {hosts : Hosts n} {labels : Labels} {count : Int} {ops : List Op} {p p' : Phase n}
    {x x' : Service n} (h : Noted hosts labels count ops p) (hnext : p.next hosts labels count x = some (x', p')) :
    Noted hosts labels count (ops ++ p.call hosts labels count) p' := by
  cases p with
  | start => cases hnext; rw [Phase.call, show ops = [] from h]; rfl
  | raised => cases hnext; rwa [Phase.call, List.append_nil]
  | sawAvailable counts => cases hnext; rwa [Phase.call, List.append_nil]
  | sawReserved counts reserved =>
      obtain rfl : ops = [.increase count labels] := h
      rw [Phase.next] at hnext
      rw [Phase.call]
      split at hnext
      · next hadmits =>
          cases hnext
          refine ⟨counts, reserved, ?_⟩
          rw [toldCalls, if_pos hadmits, if_pos hadmits, Nat.zero_add, List.append_nil]
          rfl
      · next hadmits =>
          cases hnext
          refine ⟨counts, reserved, ?_⟩
          rw [toldCalls, if_neg hadmits, if_neg hadmits]
          rfl
  | creating todo merged =>
      obtain ⟨counts, reserved, hcalls⟩ := h
      cases todo with
      | nil =>
          cases hnext
          exact ⟨counts, reserved, hcalls⟩
      | cons i todo =>
          cases hnext
          refine ⟨counts, reserved, ?_⟩
          rw [← hcalls, Phase.call, List.map_cons, List.length_cons, Nat.add_right_comm, ← Nat.add_assoc,
            List.append_assoc]
          rfl
  | returned => cases hnext

/-- All calls in the order in which they are made: those of each request are among them, and there are no others. -/
structure Logged [Fintype T] (hosts : Hosts n) (labels : Labels) (count : T → Int) (x : Service n)
    (s : State T (Service n) (Phase n × List Op)) (log : List Op) : Prop where
  table : s.shared.table = log.foldl (fun table op => op.apply table) x.table
  sublist : ∀ t, (s.thread t).2.Sublist log
  length : (log.length : Int) = ∑ t, ((s.thread t).2.length : Int)
  noted : ∀ t, Noted hosts labels (count t) (s.thread t).2 (s.thread t).1

theorem Logged.next [Fintype T] [DecidableEq T] {hosts : Hosts n} {labels : Labels} {count : T → Int} {x : Service n}
    {s : State T (Service n) (Phase n × List Op)} {log : List Op} (h : Logged hosts labels count x s log) {t : T}
    {x' : Service n} {p' : Phase n} (hnext : (s.thread t).1.next hosts labels (count t) s.shared = some (x', p')) :
    Logged hosts labels count x
      (s.move t x' (p', (s.thread t).2 ++ (s.thread t).1.call hosts labels (count t)))
      (log ++ (s.thread t).1.call hosts labels (count t)) where
  table := by
    rw [State.move_shared, Phase.table_next hnext, List.foldl_append, h.table]
  sublist := by
    have hmoved := (h.sublist t).append (List.Sublist.refl ((s.thread t).1.call hosts labels (count t)))
    exact s.forall_move (P := fun _ q => q.2.Sublist (log ++ (s.thread t).1.call hosts labels (count t))) t x' (p', _)
      hmoved fun u _ => (h.sublist u).trans (List.sublist_append_left ..)
  length := by
    have hsum := s.sum_move (fun _ (q : Phase n × List Op) => (q.2.length : Int)) t x'
      (p', (s.thread t).2 ++ (s.thread t).1.call hosts labels (count t))
    rw [hsum, ← h.length, List.length_append, List.length_append]
    omega
  noted := by
    have hmoved := (h.noted t).next hnext
    exact s.forall_move (P := fun t q => Noted hosts labels (count t) q.2 q.1) t _ (p', _) hmoved fun u _ => h.noted u

/-- **The phases are the request**: in every interleaving, the table is what all calls make of it in some order, and
    the calls that a request has made when it returns are those of `getserversService` on hosts that create every
    VM, with what the request was told. -/
theorem calls_of_reachable [Fintype T] [DecidableEq T] {hosts : Hosts n} {labels : Labels} {count : T → Int}
    (hcount : ∀ t, 0 ≤ count t) {x : Service n} {s : State T (Service n) (Phase n × List Op)}
    (h : Reachable (ofNext fun t => Phase.noteNext hosts labels (count t)) ⟨x, fun _ => (.start, [])⟩ s) :
    (∃ log, Logged hosts labels count x s log) ∧
    ∀ t, (s.thread t).1 = .returned →
      ∃ counts reserved, ∀ r : Request, r.count = count t → r.labels = labels → r.xhost = none →
        r.hosts = some (hosts.ready counts (List.finRange n)) → r.reserved = reserved →
        (∀ name ∈ generateVmNames r.username r.count, name.endsWith "_error" = false) →
        (s.thread t).2 = getserversService r := by
  have hlogged : ∃ log, Logged hosts labels count x s log := by
    have hstart : Logged hosts labels count x (⟨x, fun _ => (.start, [])⟩ : State T _ _) [] :=
      ⟨rfl, fun _ => List.Sublist.refl _, by simp, fun _ => rfl⟩
    refine h.invariant (I := fun s => ∃ log, Logged hosts labels count x s log) ⟨[], hstart⟩
      fun s t x' q hs hnext => ?_
    obtain ⟨log, hlog⟩ := hs
    obtain ⟨next, hp, heq⟩ := Option.map_eq_some_iff.1 hnext
    obtain ⟨rfl, rfl⟩ := Prod.mk.inj heq
    exact ⟨_, hlog.next hp⟩
  refine ⟨hlogged, fun t ht => ?_⟩
  obtain ⟨log, hlog⟩ := hlogged
  have hreturned := hlog.noted t
  rw [ht] at hreturned
  obtain ⟨counts, reserved, hcalls⟩ := hreturned
  refine ⟨counts, reserved, fun r hr hlabels hxhost hhosts hreserved hnames => ?_⟩
  have hready := getserversService_ready hosts counts (hr ▸ hcount t) hxhost hhosts hnames
  rw [hready, hcalls, hr, hlabels, hreserved]

/-! ## The invariant -/

/-- What a request has reserved and neither used nor given back. -/
def Phase.share (count : Int) : Phase n → Int
  | .start => 0
  | .raised => count
  | .sawAvailable _ => count
  | .sawReserved _ _ => count
  | .creating _ merged => count - merged
  | .returned => 0

/-- The VMs that a request is going to create, from the moment its test is decided. -/
def Phase.pending (count : Int) : Phase n → Int
  | .sawReserved counts reserved => if admits count counts reserved then count else 0
  | .creating todo _ => todo.length
  | _ => 0

/-- What a request knows is still so, and it creates no more than it has reserved. -/
def Phase.Current (hosts : Hosts n) (x : Service n) (count : Int) : Phase n → Prop
  | .sawAvailable counts => counts = availableCounts hosts x
  | .creating todo merged => (todo.length : Int) + merged ≤ count
  | _ => True

theorem Phase.pending_le_share {hosts : Hosts n} {x : Service n} {count : Int} (hcount : 0 ≤ count)
    {p : Phase n} (hp : p.Current hosts x count) : p.pending count ≤ p.share count := by
  cases p with
  | sawReserved counts reserved =>
      simp only [Phase.pending, Phase.share]
      split
      · exact le_rfl
      · exact hcount
  | creating todo merged =>
      simp only [Phase.Current] at hp
      simp only [Phase.pending, Phase.share]
      omega
  | start => exact le_rfl
  | returned => exact le_rfl
  | raised => exact hcount
  | sawAvailable counts => exact hcount

theorem Phase.share_nonneg {hosts : Hosts n} {x : Service n} {count : Int} (hcount : 0 ≤ count)
    {p : Phase n} (hp : p.Current hosts x count) : 0 ≤ p.share count := by
  refine le_trans ?_ (Phase.pending_le_share hcount hp)
  cases p with
  | sawReserved counts reserved => simp only [Phase.pending]; split <;> omega
  | creating todo merged => exact Int.natCast_nonneg _
  | _ => exact le_rfl

/-- A request stays current as long as no VM is created. -/
theorem Phase.Current.of_created {hosts : Hosts n} {x x' : Service n} {count : Int} {p : Phase n}
    (hp : p.Current hosts x count) (hx : x'.created = x.created) : p.Current hosts x' count := by
  cases p with
  | sawAvailable counts =>
      have hcounts : availableCounts hosts x' = availableCounts hosts x := by
        unfold availableCounts
        rw [hx]
      exact Eq.trans hp hcounts.symm
  | _ => exact hp

/-- Nor does a VM make a difference to a request that is not between its two reads. -/
theorem Phase.Current.of_reading {hosts : Hosts n} {x x' : Service n} {count : Int} {p : Phase n}
    (hp : p.Current hosts x count) (hreading : p.reading = false) : p.Current hosts x' count := by
  cases p with
  | sawAvailable counts => cases hreading
  | _ => exact hp

variable [Fintype T]

/-- The number of VMs on the hosts and to come. -/
def committed (count : T → Int) (s : State T (Service n) (Phase n)) : Int :=
  ∑ i, (s.shared.created i : Int) + ∑ t, (s.thread t).pending (count t)

/-- What every step keeps. -/
structure Sound (hosts : Hosts n) (labels : Labels) (count : T → Int)
    (s : State T (Service n) (Phase n)) : Prop where
  room : ∀ i, s.shared.created i ≤ hosts.capacity i
  current : ∀ t, (s.thread t).Current hosts s.shared (count t)
  reserved : ∀ l ∈ labelKeys labels,
    weight labels l * ∑ t, (s.thread t).share (count t) ≤ amount s.shared.table l
  within : committed count s ≤ ∑ i, (hosts.capacity i : Int)

/-- What the hosts and requests are promised to be: nobody asks for a negative number of VMs, and no
    host carries a label of the requests more often than they do. -/
structure WellFormed (hosts : Hosts n) (labels : Labels) (count : T → Int) : Prop where
  count_nonneg : ∀ t, 0 ≤ count t
  weight_le : ∀ i, ∀ l ∈ labelKeys labels, weight (hosts.labels i) l ≤ weight labels l

variable {hosts : Hosts n} {labels : Labels} {count : T → Int} {s : State T (Service n) (Phase n)}

theorem Sound.shares_nonneg (hs : Sound hosts labels count s) (hwf : WellFormed hosts labels count) :
    0 ≤ ∑ t, (s.thread t).share (count t) :=
  Finset.sum_nonneg fun t _ => Phase.share_nonneg (hwf.count_nonneg t) (hs.current t)

/-- The answer of `get_reserved` covers everything that is reserved. -/
theorem Sound.shares_le_getReserved (hs : Sound hosts labels count s)
    (hwf : WellFormed hosts labels count) :
    ∑ t, (s.thread t).share (count t) ≤ getReserved labels s.shared.table := by
  obtain ⟨l, hl⟩ := exists_mem_labelKeys labels
  calc ∑ t, (s.thread t).share (count t)
      ≤ weight labels l * ∑ t, (s.thread t).share (count t) :=
        le_mul_of_one_le_left (hs.shares_nonneg hwf) (one_le_weight hl)
    _ ≤ amount s.shared.table l := hs.reserved l hl
    _ ≤ getReserved labels s.shared.table := amount_le_getReserved hl _

/-- Lowering by no more than a share leaves the rest covered. -/
theorem le_amount_decreaseReserved {table : Reserved} {ls : Labels} {l : Option String}
    {c shares : Int} (hc : 0 ≤ c) (hshares : 0 ≤ shares)
    (hls : weight ls l ≤ weight labels l) (hle : weight labels l * shares ≤ amount table l) :
    weight labels l * (shares - c) ≤ amount (decreaseReserved c ls table) l := by
  have hamount : 0 ≤ amount table l := le_trans (mul_nonneg (weight_nonneg _ _) hshares) hle
  have hmul : c * weight ls l ≤ weight labels l * c := by
    rw [mul_comm c]
    exact mul_le_mul_of_nonneg_right hls hc
  rw [amount_decreaseReserved hc ls hamount, mul_sub]
  omega

/-- A step that leaves the share alone keeps the reservations covered. -/
theorem Sound.reserved_of_share_eq (hs : Sound hosts labels count s) {t : T} {p : Phase n}
    (hp : p.share (count t) = (s.thread t).share (count t)) (l : Option String)
    (hl : l ∈ labelKeys labels) :
    weight labels l * (∑ u, (s.thread u).share (count u)
      + (p.share (count t) - (s.thread t).share (count t))) ≤ amount s.shared.table l := by
  rw [hp, sub_self, add_zero]
  exact hs.reserved l hl

theorem sum_availableCounts {x : Service n} (hroom : ∀ i, x.created i ≤ hosts.capacity i) :
    ∑ i, (availableCounts hosts x i : Int)
      = ∑ i, (hosts.capacity i : Int) - ∑ i, (x.created i : Int) := by
  rw [← Finset.sum_sub_distrib]
  exact Finset.sum_congr rfl fun i _ => Nat.cast_sub (hroom i)

theorem sum_created_succ (created : Fin n → ℕ) (i : Fin n) :
    ∑ j, (Function.update created i (created i + 1) j : Int) = ∑ j, (created j : Int) + 1 := by
  have hupdate : ∀ j, (Function.update created i (created i + 1) j : Int)
      = (created j : Int) + if j = i then 1 else 0 := by
    intro j
    by_cases hj : j = i
    · subst hj; simp
    · simp [hj]
  rw [Finset.sum_congr rfl fun j _ => hupdate j, Finset.sum_add_distrib]
  simp

variable [DecidableEq T]

/-- A step that keeps the parts of the invariant keeps the invariant. -/
theorem sound_move_of {t : T} {x : Service n} {p : Phase n}
    (hroom : ∀ i, x.created i ≤ hosts.capacity i) (hp : p.Current hosts x (count t))
    (hothers : ∀ u, u ≠ t → (s.thread u).Current hosts x (count u))
    (hreserved : ∀ l ∈ labelKeys labels, weight labels l * (∑ u, (s.thread u).share (count u)
      + (p.share (count t) - (s.thread t).share (count t))) ≤ amount x.table l)
    (hwithin : ∑ i, (x.created i : Int) + (∑ u, (s.thread u).pending (count u)
      + (p.pending (count t) - (s.thread t).pending (count t))) ≤ ∑ i, (hosts.capacity i : Int)) :
    Sound hosts labels count (s.move t x p) where
  room := hroom
  current := State.forall_move (P := fun u p => p.Current hosts x (count u)) s t x p hp hothers
  reserved l hl := by
    rw [State.sum_move fun u (p : Phase n) => p.share (count u)]
    exact hreserved l hl
  within := by
    unfold committed
    rw [State.sum_move fun u (p : Phase n) => p.pending (count u)]
    exact hwithin

/-- A step that creates no VM keeps the invariant if it keeps the reservations covered and takes on no
    new VMs. -/
theorem Sound.move_quiet (hs : Sound hosts labels count s) {t : T} {x : Service n} {p : Phase n}
    (hx : x.created = s.shared.created) (hp : p.Current hosts x (count t))
    (hreserved : ∀ l ∈ labelKeys labels, weight labels l * (∑ u, (s.thread u).share (count u)
      + (p.share (count t) - (s.thread t).share (count t))) ≤ amount x.table l)
    (hpending : p.pending (count t) ≤ (s.thread t).pending (count t)) :
    Sound hosts labels count (s.move t x p) := by
  refine sound_move_of (hx ▸ hs.room) hp (fun u _ => (hs.current u).of_created hx) hreserved ?_
  have hwithin := hs.within
  unfold committed at hwithin
  rw [hx]
  omega

/-- The test is sound when both numbers are current: what is reserved by all requests fits in what the
    hosts can take. -/
theorem Sound.read_reserved (hs : Sound hosts labels count s) (hwf : WellFormed hosts labels count)
    {t : T} {counts : Fin n → ℕ} (ht : s.thread t = .sawAvailable counts) :
    Sound hosts labels count
      (s.move t s.shared (.sawReserved counts (getReserved labels s.shared.table))) := by
  have hcounts : counts = availableCounts hosts s.shared := by
    have hcur := hs.current t
    rw [ht] at hcur
    exact hcur
  have hshare : ∀ l ∈ labelKeys labels, weight labels l * (∑ u, (s.thread u).share (count u)
      + (count t - (s.thread t).share (count t))) ≤ amount s.shared.table l := by
    intro l hl
    rw [ht, Phase.share, sub_self, add_zero]
    exact hs.reserved l hl
  by_cases hfits : getReserved labels s.shared.table ≤ ∑ i, (counts i : Int)
  · refine sound_move_of hs.room trivial (fun u _ => hs.current u) hshare ?_
    have hmoved : ∀ u, ((s.move t s.shared (.sawReserved counts
        (getReserved labels s.shared.table))).thread u).Current hosts s.shared (count u) :=
      State.forall_move (P := fun u p => p.Current hosts s.shared (count u)) s t _ _ trivial
        fun u _ => hs.current u
    have hle := Finset.sum_le_sum fun u (_ : u ∈ Finset.univ) =>
      Phase.pending_le_share (hwf.count_nonneg u) (hmoved u)
    rw [State.sum_move fun u (p : Phase n) => p.pending (count u),
      State.sum_move fun u (p : Phase n) => p.share (count u)] at hle
    have hread := hs.shares_le_getReserved hwf
    have hsame : (Phase.sawReserved counts (getReserved labels s.shared.table)).share (count t)
        - (s.thread t).share (count t) = 0 := by
      rw [ht]; exact sub_self _
    rw [hcounts, sum_availableCounts hs.room] at hfits
    omega
  · refine hs.move_quiet rfl trivial hshare ?_
    have hcount := hwf.count_nonneg t
    simp only [ht, Phase.pending]
    by_cases hgo : admits (count t) counts (getReserved labels s.shared.table) = true
    · rw [if_pos hgo]
      rw [admits, Bool.not_eq_true', decide_eq_false_iff_not] at hgo
      omega
    · rw [if_neg hgo]

theorem Sound.raise (hs : Sound hosts labels count s) {t : T} (ht : s.thread t = .start) :
    Sound hosts labels count (s.move t
      ⟨increaseReserved (count t) labels s.shared.table, s.shared.created⟩ .raised) := by
  refine hs.move_quiet rfl trivial (fun l hl => ?_) (by rw [ht]; exact le_rfl)
  rw [amount_increaseReserved, ht, Phase.share, Phase.share, sub_zero, mul_add,
    mul_comm (weight labels l) (count t)]
  exact Int.add_le_add_right (hs.reserved l hl) _

theorem Sound.read_available (hs : Sound hosts labels count s) {t : T} (ht : s.thread t = .raised) :
    Sound hosts labels count
      (s.move t s.shared (.sawAvailable (availableCounts hosts s.shared))) :=
  hs.move_quiet rfl rfl (hs.reserved_of_share_eq (by rw [ht]; rfl)) (by rw [ht]; exact le_rfl)

theorem Sound.admitted (hs : Sound hosts labels count s) (hwf : WellFormed hosts labels count) {t : T}
    {counts : Fin n → ℕ} {reserved : Int} (ht : s.thread t = .sawReserved counts reserved)
    (hgo : admits (count t) counts reserved = true) :
    Sound hosts labels count
      (s.move t s.shared (.creating (plan counts (List.finRange n) (count t).toNat) 0)) := by
  have hcount := hwf.count_nonneg t
  have hplan := length_plan_le counts (List.finRange n) (count t).toNat
  refine hs.move_quiet rfl ?_ (hs.reserved_of_share_eq ?_) ?_
  · simp only [Phase.Current]; omega
  · rw [ht, Phase.share, Phase.share, Nat.cast_zero, sub_zero]
  · rw [ht, Phase.pending, Phase.pending, if_pos hgo]; omega

/-- A request that gives back what is left of its share is done. -/
theorem Sound.giveBack (hs : Sound hosts labels count s) (hwf : WellFormed hosts labels count) {t : T}
    (hpending : (s.thread t).pending (count t) = 0) :
    Sound hosts labels count (s.move t
      ⟨decreaseReserved ((s.thread t).share (count t)) labels s.shared.table, s.shared.created⟩
      .returned) := by
  refine hs.move_quiet rfl trivial (fun l hl => ?_) hpending.ge
  rw [Phase.share, zero_sub, ← sub_eq_add_neg]
  exact le_amount_decreaseReserved (Phase.share_nonneg (hwf.count_nonneg t) (hs.current t))
    (hs.shares_nonneg hwf) le_rfl (hs.reserved l hl)

/-- Creating a VM moves it from the requests to the hosts. -/
theorem Sound.create (hs : Sound hosts labels count s) (hwf : WellFormed hosts labels count) {t : T}
    {i : Fin n} {todo : List (Fin n)} {merged : ℕ} (ht : s.thread t = .creating (i :: todo) merged)
    (hroom : s.shared.created i < hosts.capacity i) (hreading : ∀ u, (s.thread u).reading = false) :
    Sound hosts labels count (s.move t
      ⟨decreaseReserved 1 (hosts.labels i) s.shared.table,
        Function.update s.shared.created i (s.shared.created i + 1)⟩
      (.creating todo (merged + 1))) := by
  have hcur := hs.current t
  have hwithin := hs.within
  rw [ht] at hcur
  simp only [Phase.Current, List.length_cons, Nat.cast_add, Nat.cast_one] at hcur
  refine sound_move_of (fun j => ?_) ?_ (fun u _ => (hs.current u).of_reading (hreading u))
    (fun l hl => ?_) ?_
  · change Function.update s.shared.created i (s.shared.created i + 1) j ≤ hosts.capacity j
    by_cases hj : j = i
    · subst hj; rw [Function.update_self]; exact hroom
    · rw [Function.update_of_ne hj]; exact hs.room j
  · simp only [Phase.Current, Nat.cast_add, Nat.cast_one]; omega
  · have hone : (count t - ((merged + 1 : ℕ) : Int)) - (count t - merged) = -1 := by
      rw [Nat.cast_add, Nat.cast_one]; omega
    rw [ht, Phase.share, Phase.share, hone, ← sub_eq_add_neg]
    exact le_amount_decreaseReserved Int.one_nonneg (hs.shares_nonneg hwf) (hwf.weight_le i l hl)
      (hs.reserved l hl)
  · rw [sum_created_succ, ht, Phase.pending, Phase.pending, List.length_cons, Nat.cast_add,
      Nat.cast_one]
    unfold committed at hwithin
    omega

/-- One safe step keeps the invariant. -/
theorem sound_move (hs : Sound hosts labels count s) (hwf : WellFormed hosts labels count) {t : T}
    (hguard : Undisturbed hosts s t) {x : Service n} {p : Phase n}
    (hnext : (s.thread t).next hosts labels (count t) s.shared = some (x, p)) :
    Sound hosts labels count (s.move t x p) := by
  cases ht : s.thread t with
  | start =>
      rw [ht] at hnext
      obtain ⟨rfl, rfl⟩ := Prod.mk.inj (Option.some.inj hnext)
      exact hs.raise ht
  | raised =>
      rw [ht] at hnext
      obtain ⟨rfl, rfl⟩ := Prod.mk.inj (Option.some.inj hnext)
      exact hs.read_available ht
  | sawAvailable counts =>
      rw [ht] at hnext
      obtain ⟨rfl, rfl⟩ := Prod.mk.inj (Option.some.inj hnext)
      exact hs.read_reserved hwf ht
  | sawReserved counts reserved =>
      rw [ht, Phase.next] at hnext
      split at hnext
      · next hgo =>
        obtain ⟨rfl, rfl⟩ := Prod.mk.inj (Option.some.inj hnext)
        exact hs.admitted hwf ht hgo
      · next hrefuse =>
        obtain ⟨rfl, rfl⟩ := Prod.mk.inj (Option.some.inj hnext)
        have hback := hs.giveBack hwf (t := t) (by rw [ht, Phase.pending, if_neg hrefuse])
        rw [ht] at hback
        exact hback
  | creating todo merged =>
      rw [ht] at hnext
      cases todo with
      | nil =>
          obtain ⟨rfl, rfl⟩ := Prod.mk.inj (Option.some.inj hnext)
          have hback := hs.giveBack hwf (t := t) (by rw [ht]; rfl)
          rw [ht] at hback
          exact hback
      | cons i todo =>
          obtain ⟨rfl, rfl⟩ := Prod.mk.inj (Option.some.inj hnext)
          obtain ⟨hroom, hreading⟩ := hguard i (by rw [ht]; rfl)
          exact hs.create hwf ht hroom hreading
  | returned => rw [ht] at hnext; cases hnext

/-- **Admission is sound** in every interleaving in which no VM is created between the two reads of
    another request, and none on a full host: the VMs on the hosts and those still to be created by
    the admitted requests never exceed what the hosts can take. -/
theorem admission_within_capacity {hosts : Hosts n} {labels : Labels} {count : T → Int}
    (hwf : WellFormed hosts labels count) {x : Service n}
    (hroom : ∀ i, x.created i ≤ hosts.capacity i)
    (htable : ∀ l ∈ labelKeys labels, 0 ≤ amount x.table l) {s : State T (Service n) (Phase n)}
    (h : ReachableWhen (Undisturbed hosts)
      (ofNext fun t x p => p.next hosts labels (count t) x) (startAdmission x) s) :
    ∑ i, s.shared.created i + ∑ t, (s.thread t).toCreate ≤ ∑ i, hosts.capacity i := by
  have hstart : Sound hosts labels count (startAdmission x : State T (Service n) (Phase n)) := by
    refine ⟨hroom, fun _ => trivial, ?_, ?_⟩
    · intro l hl
      simpa [startAdmission, Phase.share] using htable l hl
    · have hzero : ∑ t, ((startAdmission x : State T (Service n) (Phase n)).thread t).pending (count t)
          = 0 := Finset.sum_eq_zero fun t _ => rfl
      rw [committed, hzero, add_zero]
      exact Finset.sum_le_sum fun i _ => Int.ofNat_le.2 (hroom i)
  have hs : Sound hosts labels count s :=
    h.invariant hstart fun s t x p hs hguard hnext => sound_move hs hwf hguard hnext
  have htoCreate : ∑ t, ((s.thread t).toCreate : Int) ≤ ∑ t, (s.thread t).pending (count t) := by
    refine Finset.sum_le_sum fun t _ => ?_
    cases s.thread t with
    | sawReserved counts reserved =>
        simp only [Phase.toCreate, Phase.pending]
        split
        · exact hwf.count_nonneg t
        · exact le_rfl
    | _ => exact le_rfl
  have hwithin := hs.within
  unfold committed at hwithin
  have hcast : (∑ i, (s.shared.created i : Int)) + ∑ t, ((s.thread t).toCreate : Int)
      ≤ ∑ i, (hosts.capacity i : Int) := by omega
  exact_mod_cast hcast

/-- One host with room for two VMs, and no labels. -/
def smallHost : Hosts 1 := ⟨fun _ => 2, fun _ => none⟩

/-- One request for two VMs, one for one VM. -/
def twoAndOne : Bool → Int
  | false => 2
  | true => 1

/-- One after the other, the request for two VMs is admitted and the other one refused. -/
theorem admission_within_capacity_small_host :
    ∃ s, ReachableWhen (Undisturbed smallHost)
        (ofNext fun t x p => p.next smallHost none (twoAndOne t) x)
        (startAdmission ⟨∅, fun _ => 0⟩) s ∧
      s.shared.created 0 = 2 ∧ (s.thread true).share 1 = 0 ∧
      ∑ i, s.shared.created i + ∑ t, (s.thread t).toCreate ≤ ∑ i, smallHost.capacity i := by
  have hwf : WellFormed smallHost none twoAndOne := ⟨by decide, fun _ _ _ => le_rfl⟩
  have hrun : ReachableWhen (Undisturbed smallHost)
      (ofNext fun t x p => p.next smallHost none (twoAndOne t) x)
      (startAdmission ⟨∅, fun _ => 0⟩) _ :=
    reachableWhen_of_runSchedule
      [false, false, false, false, true, false, false, true, true, true] rfl
  exact ⟨_, hrun, rfl, rfl,
    admission_within_capacity hwf (fun _ => Nat.zero_le _) (fun _ _ => le_rfl) hrun⟩

/-- The request for two VMs is admitted; the other one reads that two are available, waits while both
    are created, and reads that nothing but its own VM is reserved. It is admitted as well. -/
theorem admission_exceeds_capacity :
    ∃ s, Reachable (ofNext fun t x p => p.next smallHost none (twoAndOne t) x)
        (startAdmission ⟨∅, fun _ => 0⟩) s ∧
      ∑ i, smallHost.capacity i < ∑ i, s.shared.created i + ∑ t, (s.thread t).toCreate :=
  ⟨_, reachable_of_runSchedule
    [false, false, false, false, true, true, false, false, true, true] rfl, by decide⟩

end DynVm

end TestInfra
