import TestInfra.Tasks.Values
import Mathlib.Data.List.Infix

set_option autoImplicit false

/-! # Docker hosts from the pool

`ServerManager.get_dockers` books containers on **every** docker host of a pool that has enough of
them free, and `release_dockers` gives those of one host back (`scripts/server_manager.py`). Both read
the `users` field as an object and write it back as a **text** (`users='{json.dumps(users)}'`), which
neither of them can read again: an item assignment to a text raises, and so does an index into it. So a
host record changes at most once.

A host record is known by its `ipaddr`. A query is taken to run when it is made and to return its rows
as a list. -/

namespace TestInfra

namespace ServerManager

/-! ## Host records -/

/-- The `users` field of a row. A text is the `json.dumps` of a dictionary and is given by that
    dictionary. -/
inductive Users where
  | missing
  | null
  | object (counts : Dict String Int)
  | text (counts : Dict String Int)
deriving DecidableEq

/-- The counts the field records, in whichever representation. -/
def Users.counts : Users → Dict String Int
  | .missing | .null => ∅
  | .object counts | .text counts => counts

/-- `result['users'] if result['users'] else {}`, then used as a dictionary: a missing field is a
    `KeyError`, and a text takes no item. -/
def Users.read : Users → Except Exn (Dict String Int)
  | .missing => .error .keyError
  | .null => .ok ∅
  | .object counts => .ok counts
  | .text _ => .error .typeError

/-- A document of `QE-server-pool` with `serverType='docker'`, or another one. -/
structure DockerHost where
  serverType : String
  poolId : String
  availableServers : Int
  users : Users
deriving DecidableEq

/-- The host records, by `ipaddr`. -/
abbrev Hosts := Dict String DockerHost

/-- `UPDATE ... SET availableServers=.., users='..'`. -/
def DockerHost.update (availableServers : Int) (users : Dict String Int) (h : DockerHost) :
    DockerHost :=
  { h with availableServers := availableServers, users := .text users }

/-! ## `json.dumps` -/

/-- `\uXXXX`. -/
def jsonHex (n : Nat) : String :=
  "\\u" ++ String.ofList ([n / 4096, n / 256, n / 16, n].map fun m => Nat.digitChar (m % 16))

/-- A character of a JSON text; whatever is not printable ASCII is escaped, beyond the basic plane as a
    surrogate pair. -/
def jsonChar (c : Char) : String :=
  match c.toNat with
  | 0x22 => "\\\""
  | 0x5c => "\\\\"
  | 0x0a => "\\n"
  | 0x0d => "\\r"
  | 0x09 => "\\t"
  | 0x08 => "\\b"
  | 0x0c => "\\f"
  | n =>
      if 0x20 ≤ n ∧ n ≤ 0x7e then c.toString
      else if n < 0x10000 then jsonHex n
      else jsonHex (0xd800 + (n - 0x10000) / 0x400) ++ jsonHex (0xdc00 + (n - 0x10000) % 0x400)

def jsonString (s : String) : String :=
  "\"" ++ String.join (s.toList.map jsonChar) ++ "\""

/-- `json.dumps` of a dictionary of counts. -/
def jsonDumps (counts : Dict String Int) : String :=
  "\x7b" ++ ", ".intercalate (counts.items.map fun e => jsonString e.1 ++ ": " ++ toString e.2) ++ "\x7d"

/-! ## The two methods -/

/-- One row of the loop of `get_dockers`: the record written back, `none` when the host has too few
    free servers. -/
def DockerHost.book (username : String) (count : Int) (h : DockerHost) :
    Except Exn (Option DockerHost) :=
  if count ≤ h.availableServers then
    match h.users.read with
    | .error e => .error e
    | .ok users => .ok (some (h.update (h.availableServers - count) (users.set username count)))
  else .ok none

/-- The loop of `get_dockers` over the rows; an exception ends it and the list made so far is
    returned. -/
def bookHosts (username : String) (count : Int) :
    List (String × DockerHost) → Hosts → List String × Hosts
  | [], hosts => ([], hosts)
  | (ipaddr, h) :: rest, hosts =>
      match h.book username count with
      | .error _ => ([], hosts)
      | .ok none => bookHosts username count rest hosts
      | .ok (some h') =>
          let (ips, hosts) := bookHosts username count rest (hosts.set ipaddr h')
          (ipaddr :: ips, hosts)

/-- `WHERE serverType='docker' AND poolId='{pool_id}'`. -/
def DockerHost.selected (poolId : String) (h : DockerHost) : Bool :=
  h.serverType = "docker" && h.poolId = poolId

/-- The rows of the query of `get_dockers`. -/
def dockerRows (poolId : String) (hosts : Hosts) : List (String × DockerHost) :=
  hosts.items.filter fun row => row.2.selected poolId

/-- `get_dockers`. -/
def getDockers (username : String) (count : Int) (poolId : String) (hosts : Hosts) :
    List String × Hosts :=
  bookHosts username count (dockerRows poolId hosts) hosts

/-- `release_dockers`. For a text `username in users` looks for a substring, and a user that is found
    there is an index into a text: a `TypeError`. -/
def releaseDockers (username ipaddr : String) (hosts : Hosts) : Bool × Hosts :=
  match hosts.get? ipaddr with
  | none => (false, hosts)
  | some h =>
      match h.users with
      | .missing => (false, hosts)
      | .null => (true, hosts)
      | .text users => (!decide (username.toList <:+: (jsonDumps users).toList), hosts)
      | .object users =>
          match users.get? username with
          | none => (true, hosts)
          | some count =>
              let h' := h.update (h.availableServers + count) (users.del username)
              (true, hosts.set ipaddr h')

/-! ## Sequences of calls -/

inductive DockerCall where
  | getDockers (username : String) (count : Int) (poolId : String)
  | releaseDockers (username ipaddr : String)
deriving DecidableEq

def DockerCall.username : DockerCall → String
  | .getDockers username _ _ => username
  | .releaseDockers username _ => username

def dockerStep (hosts : Hosts) : DockerCall → Hosts
  | .getDockers username count poolId => (getDockers username count poolId hosts).2
  | .releaseDockers username ipaddr => (releaseDockers username ipaddr hosts).2

/-- The pool after a sequence of calls. -/
def dockerRun (hosts : Hosts) (calls : List DockerCall) : Hosts := calls.foldl dockerStep hosts

theorem dockerRun_snoc (hosts : Hosts) (calls : List DockerCall) (call : DockerCall) :
    dockerRun hosts (calls ++ [call]) = dockerStep (dockerRun hosts calls) call := by
  simp only [dockerRun, List.foldl_append, List.foldl_cons, List.foldl_nil]

/-! ## What a call does to one host -/

/-- Whether the loop over the rows books on the host: it has enough free servers, and no row with
    enough of them up to it raises. -/
def booksOn (ipaddr : String) (count : Int) : List (String × DockerHost) → Bool
  | [] => false
  | (ipaddr', h) :: rest =>
      if count ≤ h.availableServers then
        h.users.read.isOk && (ipaddr' = ipaddr || booksOn ipaddr count rest)
      else booksOn ipaddr count rest

/-- The record `get_dockers` leaves on a host it books on. -/
def DockerHost.booked (username : String) (count : Int) (h : DockerHost) : DockerHost :=
  h.update (h.availableServers - count) (h.users.counts.set username count)

theorem Users.read_ok_iff (u : Users) (counts : Dict String Int) :
    u.read = .ok counts ↔ u ≠ .missing ∧ (∀ d, u ≠ .text d) ∧ u.counts = counts := by
  cases u <;> simp [Users.read, Users.counts]

theorem booksOn_eq_false {ipaddr : String} {count : Int} {rows : List (String × DockerHost)}
    (h : ipaddr ∉ rows.map Prod.fst) : booksOn ipaddr count rows = false := by
  induction rows with
  | nil => rfl
  | cons row rest ih =>
      rw [List.map_cons, List.mem_cons, not_or] at h
      simp [booksOn, ih h.2, Ne.symm h.1]

theorem get?_bookHosts (username : String) (count : Int) {ipaddr : String}
    {rows : List (String × DockerHost)} (hnod : (rows.map Prod.fst).Nodup) {hosts : Hosts} {h : DockerHost}
    (hget : hosts.get? ipaddr = some h) (hrow : ∀ h', (ipaddr, h') ∈ rows → h' = h) :
    (bookHosts username count rows hosts).2.get? ipaddr =
      some (if booksOn ipaddr count rows then h.booked username count else h) := by
  induction rows generalizing hosts h with
  | nil => simpa [bookHosts, booksOn] using hget
  | cons row rest ih =>
      obtain ⟨ipaddr', g⟩ := row
      rw [List.map_cons, List.nodup_cons] at hnod
      have hrest : ∀ h', (ipaddr, h') ∈ rest → h' = h :=
        fun h' hm => hrow h' (List.mem_cons_of_mem _ hm)
      by_cases hc : count ≤ g.availableServers
      · cases hr : g.users.read with
        | error e => simpa [bookHosts, DockerHost.book, booksOn, hc, hr, Except.isOk,
            Except.toBool] using hget
        | ok users =>
            have hcounts : g.users.counts = users := ((Users.read_ok_iff _ _).1 hr).2.2
            simp only [bookHosts, DockerHost.book, booksOn, if_pos hc, hr, Except.isOk,
              Except.toBool, Bool.true_and]
            by_cases hip : ipaddr' = ipaddr
            · -- the host itself: its address occurs in no later row
              subst hip
              obtain rfl : g = h := hrow g List.mem_cons_self
              have hlater : ∀ h', (ipaddr', h') ∈ rest → h' = g.booked username count :=
                fun h' hm => absurd (List.mem_map.2 ⟨_, hm, rfl⟩) hnod.1
              have hset : (hosts.set ipaddr' (g.update (g.availableServers - count)
                  (users.set username count))).get? ipaddr' = some (g.booked username count) := by
                rw [Dict.get?_set, if_pos rfl, DockerHost.booked, hcounts]
              rw [ih hnod.2 hset hlater, booksOn_eq_false hnod.1]
              simp
            · have hset : (hosts.set ipaddr' (g.update (g.availableServers - count)
                  (users.set username count))).get? ipaddr = some h := by
                rw [Dict.get?_set, if_neg (Ne.symm hip), hget]
              rw [ih hnod.2 hset hrest]
              simp [hip]
      · simp only [bookHosts, DockerHost.book, booksOn, if_neg hc]
        exact ih hnod.2 hget hrest

theorem exists_of_booksOn {ipaddr : String} {count : Int} {rows : List (String × DockerHost)}
    (h : booksOn ipaddr count rows = true) :
    ∃ g, (ipaddr, g) ∈ rows ∧ count ≤ g.availableServers ∧ ∃ users, g.users.read = .ok users := by
  induction rows with
  | nil => simp [booksOn] at h
  | cons row rest ih =>
      obtain ⟨ipaddr', g⟩ := row
      have hlater : booksOn ipaddr count rest = true →
          ∃ g', (ipaddr, g') ∈ (ipaddr', g) :: rest ∧ count ≤ g'.availableServers ∧
            ∃ users, g'.users.read = .ok users := by
        intro hb
        obtain ⟨g', hm, hg'⟩ := ih hb
        exact ⟨g', List.mem_cons_of_mem _ hm, hg'⟩
      unfold booksOn at h
      split at h
      · next hc =>
          rw [Bool.and_eq_true, Bool.or_eq_true] at h
          rcases h with ⟨hok, hip | hb⟩
          · obtain rfl : ipaddr' = ipaddr := by simpa using hip
            refine ⟨g, List.mem_cons_self, hc, ?_⟩
            cases hr : g.users.read with
            | error e => rw [hr] at hok; exact absurd hok (by simp [Except.isOk, Except.toBool])
            | ok users => exact ⟨users, rfl⟩
          · exact hlater hb
      · exact hlater h

/-- The call finds the host with enough free servers and a `users` field it can write to. -/
def Books (hosts : Hosts) (ipaddr : String) (count : Int) (poolId : String) : Prop :=
  booksOn ipaddr count (dockerRows poolId hosts) = true

instance (hosts : Hosts) (ipaddr : String) (count : Int) (poolId : String) :
    Decidable (Books hosts ipaddr count poolId) :=
  inferInstanceAs (Decidable (_ = true))

/-- The call finds a count of the user in the object of the host. -/
def Frees (hosts : Hosts) (ipaddr username : String) (h : DockerHost) (count : Int) : Prop :=
  hosts.get? ipaddr = some h ∧ ∃ users, h.users = .object users ∧ users.get? username = some count

theorem books_iff_row {hosts : Hosts} {ipaddr : String} {h : DockerHost} {count : Int} {poolId : String}
    (hget : hosts.get? ipaddr = some h) (hb : Books hosts ipaddr count poolId) :
    h.selected poolId = true ∧ count ≤ h.availableServers ∧ ∃ users, h.users.read = .ok users := by
  obtain ⟨g, hm, hg⟩ := exists_of_booksOn hb
  obtain ⟨hm, hsel⟩ := List.mem_filter.1 hm
  obtain rfl : g = h := by
    rw [(hosts.get?_eq_some_iff ipaddr g).2 hm, Option.some_inj] at hget
    exact hget
  exact ⟨hsel, hg⟩

/-- `get_dockers` books on the host, or leaves its record alone. -/
theorem get?_getDockers {hosts : Hosts} {ipaddr : String} {h : DockerHost}
    (hget : hosts.get? ipaddr = some h) (username : String) (count : Int) (poolId : String) :
    (getDockers username count poolId hosts).2.get? ipaddr =
      some (if Books hosts ipaddr count poolId then h.booked username count else h) := by
  have hnod : ((dockerRows poolId hosts).map Prod.fst).Nodup :=
    hosts.nodup.sublist (List.filter_sublist.map Prod.fst)
  have hrow : ∀ h', (ipaddr, h') ∈ dockerRows poolId hosts → h' = h := by
    intro h' hm
    rw [(hosts.get?_eq_some_iff ipaddr h').2 (List.mem_filter.1 hm).1, Option.some_inj] at hget
    exact hget
  exact get?_bookHosts username count hnod hget hrow

/-- `release_dockers` gives back what it finds. -/
theorem get?_releaseDockers_of_frees {hosts : Hosts} {ipaddr username : String} {h : DockerHost}
    {count : Int} (hf : Frees hosts ipaddr username h count) :
    (releaseDockers username ipaddr hosts).2.get? ipaddr =
      some (h.update (h.availableServers + count) (h.users.counts.del username)) := by
  obtain ⟨hget, users, hu, hc⟩ := hf
  have hcounts : h.users.counts = users := by rw [hu]; rfl
  simp only [releaseDockers, hget, hu, hc]
  rw [Dict.get?_set, if_pos rfl, ← hu, hcounts]

/-- **One call, said once**, for the record of one host: it is left alone, booked on, or released. -/
theorem dockerStep_cases {hosts : Hosts} {ipaddr : String} {h : DockerHost}
    (hget : hosts.get? ipaddr = some h) (call : DockerCall) :
    (dockerStep hosts call).get? ipaddr = some h ∨
    (∃ username count poolId, call = .getDockers username count poolId ∧
      Books hosts ipaddr count poolId ∧
      (dockerStep hosts call).get? ipaddr = some (h.booked username count)) ∨
    (∃ username count, call = .releaseDockers username ipaddr ∧ Frees hosts ipaddr username h count ∧
      (dockerStep hosts call).get? ipaddr =
        some (h.update (h.availableServers + count) (h.users.counts.del username))) := by
  cases call with
  | getDockers username count poolId =>
      have hbook := get?_getDockers hget username count poolId
      by_cases hb : Books hosts ipaddr count poolId
      · rw [if_pos hb] at hbook
        exact .inr (.inl ⟨username, count, poolId, rfl, hb, hbook⟩)
      · rw [if_neg hb] at hbook
        exact .inl hbook
  | releaseDockers username ipaddr' =>
      cases hg : hosts.get? ipaddr' with
      | none => exact .inl (by simpa only [dockerStep, releaseDockers, hg] using hget)
      | some g =>
          cases hu : g.users with
          | missing => exact .inl (by simpa only [dockerStep, releaseDockers, hg, hu] using hget)
          | null => exact .inl (by simpa only [dockerStep, releaseDockers, hg, hu] using hget)
          | text users => exact .inl (by simpa only [dockerStep, releaseDockers, hg, hu] using hget)
          | object users =>
              cases hc : users.get? username with
              | none => exact .inl (by simpa only [dockerStep, releaseDockers, hg, hu, hc] using hget)
              | some count =>
                  by_cases hip : ipaddr = ipaddr'
                  · subst hip
                    obtain rfl : g = h := by rw [hg, Option.some_inj] at hget; exact hget
                    have hf : Frees hosts ipaddr username g count := ⟨hget, users, hu, hc⟩
                    exact .inr (.inr ⟨username, count, rfl, hf, get?_releaseDockers_of_frees hf⟩)
                  · left
                    simp only [dockerStep, releaseDockers, hg, hu, hc]
                    rw [Dict.get?_set, if_neg hip, hget]

/-- A text is never written to again. -/
theorem dockerStep_of_text {hosts : Hosts} {ipaddr : String} {h : DockerHost} {users : Dict String Int}
    (hget : hosts.get? ipaddr = some h) (htext : h.users = .text users) (call : DockerCall) :
    (dockerStep hosts call).get? ipaddr = some h := by
  rcases dockerStep_cases hget call with hsame | ⟨_, _, _, _, hb, _⟩ | ⟨_, _, _, ⟨_, users', hu, _⟩, _⟩
  · exact hsame
  · obtain ⟨_, _, users', hr⟩ := books_iff_row hget hb
    rw [htext] at hr
    exact absurd hr (by simp [Users.read])
  · rw [htext] at hu
    exact absurd hu (by simp)

/-- **A record that holds a text is frozen.** -/
theorem dockerRun_of_text {hosts : Hosts} {ipaddr : String} {h : DockerHost} {users : Dict String Int}
    (hget : hosts.get? ipaddr = some h) (htext : h.users = .text users) (calls : List DockerCall) :
    (dockerRun hosts calls).get? ipaddr = some h := by
  induction calls using List.reverseRecOn with
  | nil => exact hget
  | append_singleton calls call ih =>
      rw [dockerRun_snoc]
      exact dockerStep_of_text ih htext call

theorem dockerRun_append (hosts : Hosts) (calls calls' : List DockerCall) :
    dockerRun hosts (calls ++ calls') = dockerRun (dockerRun hosts calls) calls' := by
  simp only [dockerRun, List.foldl_append]

/-! ## The account of a host -/

/-- The call is one that a user of the host makes: a request to its pool, or a release on it. -/
def DockerCall.concerns (ipaddr : String) (h₀ : DockerHost) : DockerCall → Prop
  | .getDockers _ _ poolId => poolId = h₀.poolId
  | .releaseDockers _ ipaddr' => ipaddr' = ipaddr

/-- The user has released on the host and has not asked its pool for servers since. -/
def Released (ipaddr : String) (h₀ : DockerHost) (username : String) (calls : List DockerCall) : Prop :=
  ∃ pre post, calls = pre ++ .releaseDockers username ipaddr :: post ∧
    ∀ count, .getDockers username count h₀.poolId ∉ post

/-- Every user of the host has released; none of them held anything when the calls began. -/
def Settled (ipaddr : String) (h₀ : DockerHost) (calls : List DockerCall) : Prop :=
  ∀ call ∈ calls, call.concerns ipaddr h₀ →
    call.username ∉ h₀.users.counts.keys ∧ Released ipaddr h₀ call.username calls

/-- **What is asked of a host record** after some calls: free and recorded servers make up the
    capacity, the number of free ones is not negative, and once every user has released the record is
    the initial one. -/
structure Accounted (ipaddr : String) (h₀ : DockerHost) (calls : List DockerCall) (h : DockerHost) :
    Prop where
  capacity : h.availableServers + h.users.counts.total =
    h₀.availableServers + h₀.users.counts.total
  nonneg : 0 ≤ h.availableServers
  initial : Settled ipaddr h₀ calls → h = h₀

/-- What each call has to meet, in the pool `hosts` it is made in: a booking on the host is made by a
    user with no count there, and from then on there is always a user who has not released; a release
    does not give back a negative number beyond what is free. -/
def CallOk (ipaddr : String) (h₀ : DockerHost) (hosts : Hosts) (pre post : List DockerCall) :
    DockerCall → Prop
  | .getDockers username count poolId =>
      Books hosts ipaddr count poolId →
        (∀ h, hosts.get? ipaddr = some h → (h.users.counts.get? username).getD 0 = 0) ∧
        ∀ mid rest, post = mid ++ rest →
          ¬ Settled ipaddr h₀ (pre ++ .getDockers username count poolId :: mid)
  | .releaseDockers username ipaddr' =>
      ipaddr' = ipaddr → ∀ h count, Frees hosts ipaddr username h count →
        0 ≤ h.availableServers + count

/-- A booking keeps the sum exactly when it overwrites no count. -/
theorem booked_total (h : DockerHost) (username : String) (count : Int) :
    (h.booked username count).availableServers + (h.booked username count).users.counts.total =
      h.availableServers + h.users.counts.total - (h.users.counts.get? username).getD 0 := by
  show h.availableServers - count + (h.users.counts.set username count).total = _
  rw [Dict.total_set]
  omega

/-- A release keeps the sum. -/
theorem released_total {h : DockerHost} {username : String} {count : Int}
    (hc : h.users.counts.get? username = some count) :
    (h.update (h.availableServers + count) (h.users.counts.del username)).availableServers +
        (h.update (h.availableServers + count) (h.users.counts.del username)).users.counts.total =
      h.availableServers + h.users.counts.total := by
  show h.availableServers + count + (h.users.counts.del username).total = _
  rw [Dict.total_del, hc, Option.getD_some]
  omega

theorem Frees.counts {hosts : Hosts} {ipaddr username : String} {h : DockerHost} {count : Int}
    (hf : Frees hosts ipaddr username h count) : h.users.counts.get? username = some count := by
  obtain ⟨-, users, hu, hc⟩ := hf
  rw [hu]
  exact hc

/-- A user who held a count when the calls began and has made a call keeps them from being settled. -/
theorem not_settled_of_release {ipaddr : String} {h₀ : DockerHost} {username : String}
    (hu : username ∈ h₀.users.counts.keys) (pre mid : List DockerCall) :
    ¬ Settled ipaddr h₀ (pre ++ .releaseDockers username ipaddr :: mid) := by
  intro hs
  have hmem : DockerCall.releaseDockers username ipaddr ∈
      pre ++ .releaseDockers username ipaddr :: mid := by simp
  exact (hs _ hmem rfl).1 hu

/-- The record is the initial one, or it holds a text that accounts for it and no point reached from
    here on is settled. -/
def HostInv (ipaddr : String) (h₀ : DockerHost) (calls rest : List DockerCall) (h : DockerHost) : Prop :=
  h = h₀ ∨ ((∃ users, h.users = .text users) ∧
    h.availableServers + h.users.counts.total = h₀.availableServers + h₀.users.counts.total ∧
    0 ≤ h.availableServers ∧
    ∀ mid later, rest = mid ++ later → ¬ Settled ipaddr h₀ (calls ++ mid))

theorem HostInv.accounted {ipaddr : String} {h₀ h : DockerHost} {calls rest : List DockerCall}
    (hnonneg : 0 ≤ h₀.availableServers) (hinv : HostInv ipaddr h₀ calls rest h) :
    Accounted ipaddr h₀ calls h := by
  rcases hinv with rfl | ⟨-, hcap, hpos, hset⟩
  · exact ⟨rfl, hnonneg, fun _ => rfl⟩
  · refine ⟨hcap, hpos, ?_⟩
    intro hs
    have := hset [] rest rfl
    rw [List.append_nil] at this
    exact absurd hs this

/-- One call that meets its condition keeps the invariant. -/
theorem HostInv.step {ipaddr : String} {h₀ h : DockerHost} {hosts : Hosts}
    {pre post : List DockerCall} {call : DockerCall} (hget : hosts.get? ipaddr = some h)
    (hinv : HostInv ipaddr h₀ pre (call :: post) h) (hok : CallOk ipaddr h₀ hosts pre post call) :
    ∃ h', (dockerStep hosts call).get? ipaddr = some h' ∧ HostInv ipaddr h₀ (pre ++ [call]) post h' := by
  rcases hinv with rfl | ⟨⟨users, htext⟩, hcap, hpos, hset⟩
  · rcases dockerStep_cases hget call with
      hsame | ⟨username, count, poolId, rfl, hb, hbooked⟩ | ⟨username, count, rfl, hf, hreleased⟩
    · exact ⟨h, hsame, .inl rfl⟩
    · obtain ⟨hzero, hlater⟩ := hok hb
      obtain ⟨-, hcount, -⟩ := books_iff_row hget hb
      refine ⟨_, hbooked, .inr ⟨⟨_, rfl⟩, ?_, ?_, ?_⟩⟩
      · rw [booked_total, hzero h hget, sub_zero]
      · show 0 ≤ h.availableServers - count
        omega
      · intro mid later hpost
        rw [List.append_assoc]
        exact hlater mid later hpost
    · refine ⟨_, hreleased, .inr ⟨⟨_, rfl⟩, released_total hf.counts, hok rfl h count hf, ?_⟩⟩
      intro mid later _
      have hu : username ∈ h.users.counts.keys := by
        rw [Dict.mem_keys_iff, hf.counts]
        rfl
      rw [List.append_assoc]
      exact not_settled_of_release hu pre mid
  · refine ⟨h, dockerStep_of_text hget htext call, .inr ⟨⟨users, htext⟩, hcap, hpos, ?_⟩⟩
    intro mid later hpost
    rw [List.append_assoc]
    exact hset (call :: mid) later (by rw [hpost]; rfl)

/-- Along calls that all meet their condition the invariant holds. -/
theorem hostInv_run {hosts : Hosts} {ipaddr : String} {h₀ : DockerHost} {calls : List DockerCall}
    (hget : hosts.get? ipaddr = some h₀)
    (hok : ∀ pre call post, calls = pre ++ call :: post →
      CallOk ipaddr h₀ (dockerRun hosts pre) pre post call) :
    ∀ pre post, calls = pre ++ post →
      ∃ h, (dockerRun hosts pre).get? ipaddr = some h ∧ HostInv ipaddr h₀ pre post h := by
  intro pre
  induction pre using List.reverseRecOn with
  | nil => exact fun post _ => ⟨h₀, hget, .inl rfl⟩
  | append_singleton pre call ih =>
      intro post hcalls
      rw [List.append_assoc, List.singleton_append] at hcalls
      obtain ⟨h, hh, hinv⟩ := ih (call :: post) hcalls
      rw [dockerRun_snoc]
      exact HostInv.step hh hinv (hok pre call post hcalls)

/-- **When the account of a docker host is kept.** Over every sequence of calls and at each of its
    points the record of the host is accounted for, iff the host starts with no negative number of free
    servers and every call meets `CallOk` in the pool it is made in. -/
theorem dockers_accounted_iff (hosts : Hosts) (ipaddr : String) (h₀ : DockerHost)
    (hget : hosts.get? ipaddr = some h₀) (calls : List DockerCall) :
    (∀ pre post, calls = pre ++ post →
      ∃ h, (dockerRun hosts pre).get? ipaddr = some h ∧ Accounted ipaddr h₀ pre h) ↔
    0 ≤ h₀.availableServers ∧
      ∀ pre call post, calls = pre ++ call :: post →
        CallOk ipaddr h₀ (dockerRun hosts pre) pre post call := by
  constructor
  · intro hacc
    have hstart : 0 ≤ h₀.availableServers := by
      obtain ⟨h, hh, ha⟩ := hacc [] calls rfl
      obtain rfl : h₀ = h := by rw [← Option.some_inj, ← hget]; exact hh
      exact ha.nonneg
    refine ⟨hstart, ?_⟩
    intro pre call post hcalls
    obtain ⟨h, hh, ha⟩ := hacc pre (call :: post) hcalls
    obtain ⟨h', hh', ha'⟩ := hacc (pre ++ [call]) post (by rw [hcalls]; simp)
    rw [dockerRun_snoc] at hh'
    cases call with
    | getDockers username count poolId =>
        intro hb
        have hbooked := get?_getDockers hh username count poolId
        rw [if_pos hb] at hbooked
        obtain rfl : h' = h.booked username count := by
          rw [← Option.some_inj, ← hh', ← hbooked]
          rfl
        refine ⟨?_, ?_⟩
        · intro g hg
          obtain rfl : h = g := by rw [← Option.some_inj, ← hh, hg]
          have hcap := ha.capacity
          have hcap' := ha'.capacity
          rw [booked_total] at hcap'
          omega
        · intro mid rest hpost hs
          -- the text stays; the initial record holds none, or nothing could have been booked
          obtain ⟨g, hg, hacc'⟩ := hacc (pre ++ .getDockers username count poolId :: mid) rest
            (by rw [hcalls, hpost]; simp)
          have hfrozen := dockerRun_of_text hh' rfl mid
          rw [← dockerRun_snoc, ← dockerRun_append, List.append_assoc, List.singleton_append, hg,
            Option.some_inj] at hfrozen
          have hinit := hfrozen.symm.trans (hacc'.initial hs)
          have hfirst := dockerRun_of_text hget (congrArg DockerHost.users hinit.symm) pre
          rw [hh, Option.some_inj] at hfirst
          obtain ⟨-, -, users, hr⟩ := books_iff_row hh hb
          rw [hfirst, ← hinit] at hr
          exact absurd hr (by simp [DockerHost.booked, DockerHost.update, Users.read])
    | releaseDockers username ipaddr' =>
        rintro rfl g count hf
        have hreleased := get?_releaseDockers_of_frees hf
        obtain rfl : h' = _ := Option.some_inj.1 (hh'.symm.trans hreleased)
        exact ha'.nonneg
  · rintro ⟨hstart, hok⟩ pre post hcalls
    obtain ⟨h, hh, hinv⟩ := hostInv_run hget hok pre post hcalls
    exact ⟨h, hh, hinv.accounted hstart⟩

/-- A host with four free servers and nobody on it. -/
def freshHost : DockerHost := ⟨"docker", "12hour", 4, .object ∅⟩

def freshHosts : Hosts := (∅ : Hosts).set "10.0.0.1" freshHost

/-- Two users ask for servers, and the second one releases what he asked for. -/
def twoUsers : List DockerCall :=
  [.getDockers "ann" 1 "12hour", .getDockers "bob" 2 "12hour", .releaseDockers "bob" "10.0.0.1"]

theorem dockers_accounted_iff_two_users :
    freshHosts.get? "10.0.0.1" = some freshHost ∧
      ∀ pre post, twoUsers = pre ++ post →
        ∃ h, (dockerRun freshHosts pre).get? "10.0.0.1" = some h ∧
          Accounted "10.0.0.1" freshHost pre h := by
  have hfresh : freshHosts.get? "10.0.0.1" = some freshHost := by decide
  refine ⟨hfresh, (dockers_accounted_iff freshHosts "10.0.0.1" freshHost hfresh twoUsers).2 ⟨by decide, ?_⟩⟩
  intro pre call post hcalls
  rcases pre with _ | ⟨first, pre⟩
  · -- the first user books, and never releases
    obtain ⟨rfl, rfl⟩ := List.cons.inj hcalls
    intro _
    refine ⟨?_, ?_⟩
    · intro h hh
      obtain rfl : freshHost = h := Option.some_inj.1 (hfresh.symm.trans hh)
      rfl
    · intro mid rest hmid hs
      obtain ⟨-, p, q, hrel, -⟩ := hs (.getDockers "ann" 1 "12hour") (by simp) rfl
      have hmem : DockerCall.releaseDockers "ann" "10.0.0.1" ∈ [] ++ DockerCall.getDockers "ann" 1 "12hour" :: mid := by
        rw [show [] ++ DockerCall.getDockers "ann" 1 "12hour" :: mid = _ from hrel]
        exact List.mem_append_right p List.mem_cons_self
      have hall : DockerCall.releaseDockers "ann" "10.0.0.1" ∈ twoUsers := by
        rw [twoUsers, hmid, ← List.cons_append]
        exact List.mem_append_left rest hmem
      simp [twoUsers] at hall
  · -- from then on the host holds a text, and is left alone
    obtain ⟨rfl, -⟩ := List.cons.inj hcalls
    have hbooks : Books freshHosts "10.0.0.1" 1 "12hour" := by decide
    have hann := get?_getDockers hfresh "ann" 1 "12hour"
    rw [if_pos hbooks] at hann
    have hget := dockerRun_of_text hann rfl pre
    cases call with
    | getDockers username count poolId =>
        intro hb
        obtain ⟨-, -, users, hread⟩ := books_iff_row hget hb
        cases hread
    | releaseDockers username ipaddr =>
        rintro rfl h count ⟨hh, users, hobject, -⟩
        obtain rfl := Option.some_inj.1 (hget.symm.trans hh)
        cases hobject

/-- A user books one server and releases it: the release finds a text and changes nothing. -/
theorem released_booking_stays :
    ¬ ∀ pre post, [DockerCall.getDockers "ann" 1 "12hour", .releaseDockers "ann" "10.0.0.1"]
        = pre ++ post →
      ∃ h, (dockerRun freshHosts pre).get? "10.0.0.1" = some h ∧
        Accounted "10.0.0.1" freshHost pre h := by
  intro hall
  obtain ⟨h, hh, hacc⟩ := hall _ [] (List.append_nil _).symm
  have hsettled : Settled "10.0.0.1" freshHost
      [.getDockers "ann" 1 "12hour", .releaseDockers "ann" "10.0.0.1"] := by
    have hrel : Released "10.0.0.1" freshHost "ann"
        [.getDockers "ann" 1 "12hour", .releaseDockers "ann" "10.0.0.1"] :=
      ⟨[.getDockers "ann" 1 "12hour"], [], rfl, fun _ => List.not_mem_nil⟩
    intro call hmem _
    simp only [List.mem_cons, List.not_mem_nil, or_false] at hmem
    rcases hmem with rfl | rfl
    · exact ⟨by decide, hrel⟩
    · exact ⟨by decide, hrel⟩
  rw [hacc.initial hsettled] at hh
  exact absurd hh (by decide)

end ServerManager

end TestInfra
