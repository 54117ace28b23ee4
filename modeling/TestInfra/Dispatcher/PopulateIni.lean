import TestInfra.Lib.Dict
import TestInfra.Lib.PyText
import Mathlib.Data.List.Perm.Subperm
import Mathlib.Data.List.Nodup
import Mathlib.Data.Int.Notation
import Mathlib.Algebra.Order.Group.Nat
import Mathlib.Algebra.Order.BigOperators.Group.List

set_option autoImplicit false

/-! # Servers of mixed builds

`populateIni` cuts the list of servers into a slice for each profile, from the end, and what is left is for the
default profile. `ini_servers[-num:]` is the whole list when `num` is 0, and the slice of a profile that is called
`default` is forgotten. -/

namespace TestInfra.PopulateIni

open PyText
open scoped List

/-! ## The slices -/

section Slices

variable {σ : Type}

/-- Where a slice bound is in a list of this length. -/
def sliceIndex (length : ℕ) (i : ℤ) : ℕ := if i < 0 then (length + i).toNat else i.toNat

/-- `l[i:]`. -/
def sliceFrom (i : ℤ) (l : List σ) : List σ := l.drop (sliceIndex l.length i)

/-- `l[:i]`. -/
def sliceTo (i : ℤ) (l : List σ) : List σ := l.take (sliceIndex l.length i)

/-- `"default"`. -/
def defaultProfile : Text := "default".toList

/-- One turn of the loop over `mixed_build_config`. -/
def splitProfile (state : Dict Text (List σ) × List σ) (entry : Text × ℤ) : Dict Text (List σ) × List σ :=
  (state.1.set entry.1 (sliceFrom (-entry.2) state.2), sliceTo (-entry.2) state.2)

/-- `version_config`. -/
def versionConfig (mixedBuildConfig : List (Text × ℤ)) (iniServers : List σ) : Dict Text (List σ) :=
  let state := mixedBuildConfig.foldl splitProfile (∅, iniServers)
  state.1.set defaultProfile state.2

end Slices

/-! ## The ini file -/

/-- The options of each section. -/
abbrev Config := Dict Text (Dict Text Text)

/-- `config.set(section, option, value)`; `none` is the `NoSectionError`. -/
def Config.setOption (config : Config) (sectionName option value : Text) : Option Config :=
  (config.get? sectionName).map fun options => config.set sectionName (options.set option value)

/-- What is written for an option that may be `None`. -/
def written : Option Text → Text
  | none => "None".toList
  | some value => value

def serversSection : Text := "servers".toList

def profileOption : Text := "profile".toList

def versionOption : Text := "version".toList

/-- The body of the loop over the servers of a profile; the server is an option of `[servers]` with its value. -/
def setServer (version : Option Text) (profileName : Text) (config : Config) (server : Text × Text) :
    Option Config := do
  let config ← config.setOption server.2 profileOption profileName
  config.setOption server.2 versionOption (written version)

/-- The handling of `mixed_build_config`. -/
def mixedBuild (cbVersion columnarVersion : Option Text) (mixedBuildConfig : List (Text × ℤ)) (config : Config) :
    Option Config := do
  let iniServers ← config.get? serversSection
  (versionConfig mixedBuildConfig iniServers.items).items.foldlM (fun config entry =>
    let version := if entry.1 ∈ ["columnar".toList, "analytics".toList] then columnarVersion else cbVersion
    entry.2.foldlM (setServer version entry.1) config) config

/-! ## What the slices are -/

section Slices

variable {σ : Type}

/-- The slices of the profiles. -/
def slices : List (Text × ℤ) → List σ → List (Text × List σ)
  | [], _ => []
  | (profile, num) :: entries, servers =>
      (profile, sliceFrom (-num) servers) :: slices entries (sliceTo (-num) servers)

/-- What is left of the servers. -/
def remaining : List (Text × ℤ) → List σ → List σ
  | [], servers => servers
  | (_, num) :: entries, servers => remaining entries (sliceTo (-num) servers)

theorem sliceTo_append_sliceFrom (i : ℤ) (l : List σ) : sliceTo i l ++ sliceFrom i l = l :=
  List.take_append_drop ..

theorem length_sliceFrom_neg (n : ℕ) (l : List σ) :
    (sliceFrom (-(n : ℤ)) l).length = if n = 0 then l.length else min n l.length := by
  unfold sliceFrom sliceIndex
  rw [List.length_drop]
  split <;> split <;> omega

/-- The slices and the rest are all servers. -/
theorem slices_perm (entries : List (Text × ℤ)) (servers : List σ) :
    (remaining entries servers ++ (slices entries servers).flatMap Prod.snd).Perm servers := by
  induction entries generalizing servers with
  | nil => simp [slices, remaining]
  | cons entry entries ih =>
      obtain ⟨profile, num⟩ := entry
      rw [slices, remaining, List.flatMap_cons]
      calc remaining entries (sliceTo (-num) servers) ++ (sliceFrom (-num) servers
            ++ (slices entries (sliceTo (-num) servers)).flatMap Prod.snd)
          _ ~ (remaining entries (sliceTo (-num) servers)
                ++ (slices entries (sliceTo (-num) servers)).flatMap Prod.snd) ++ sliceFrom (-num) servers := by
            rw [List.append_assoc]
            exact List.perm_append_comm.append_left _
          _ ~ sliceTo (-num) servers ++ sliceFrom (-num) servers := (ih _).append_right _
          _ = servers := sliceTo_append_sliceFrom (-num) servers

theorem map_fst_slices (entries : List (Text × ℤ)) (servers : List σ) :
    (slices entries servers).map Prod.fst = entries.map Prod.fst := by
  induction entries generalizing servers with
  | nil => rfl
  | cons entry entries ih => simp [slices, ih]

theorem foldl_splitProfile (entries : List (Text × ℤ)) (stored : Dict Text (List σ)) (servers : List σ) :
    entries.foldl splitProfile (stored, servers)
      = ((slices entries servers).foldl (fun stored slice => stored.set slice.1 slice.2) stored,
          remaining entries servers) := by
  induction entries generalizing stored servers with
  | nil => rfl
  | cons entry entries ih =>
      rw [List.foldl_cons, splitProfile, ih]
      rfl

/-- The servers of a profile. -/
theorem get?_versionConfig {entries : List (Text × ℤ)} (hnodup : (entries.map Prod.fst).Nodup) (servers : List σ)
    (profile : Text) :
    (versionConfig entries servers).get? profile =
      if profile = defaultProfile then some (remaining entries servers)
      else Assoc.find profile (slices entries servers) := by
  unfold versionConfig
  rw [foldl_splitProfile, Dict.get?_set, Dict.get?_foldl_set _ (by rwa [map_fst_slices])]
  simp

end Slices

/-! ## The counts -/

section Counts

variable {σ : Type} {servers : List σ}

/-- `mixed_build_config`, as it is read. -/
def asInts (counts : List (Text × ℕ)) : List (Text × ℤ) := counts.map fun entry => (entry.1, (entry.2 : ℤ))

/-- A profile without servers only comes when none are left, and the default profile is not given any. -/
def CountsRight (counts : List (Text × ℕ)) (total : ℕ) : Prop :=
  (∀ before profile after, counts = before ++ (profile, 0) :: after → (before.map Prod.snd).sum = total) ∧
    ∀ num, (defaultProfile, num) ∈ counts → num = 0

/-- The slice of each profile has its number of servers; that of the default profile is empty. -/
def SlicesRight (counts : List (Text × ℕ)) (servers : List σ) : Prop :=
  List.Forall₂ (fun entry slice => slice.2.length = if entry.1 = defaultProfile then 0 else entry.2) counts
    (slices (asInts counts) servers)

theorem countsRight_cons_iff {profile : Text} {num total : ℕ} {counts : List (Text × ℕ)} (hnum : num ≠ 0) :
    CountsRight ((profile, num) :: counts) (num + total) ↔ profile ≠ defaultProfile ∧ CountsRight counts total := by
  constructor
  · rintro ⟨hzero, hdefault⟩
    refine ⟨?_, ?_, fun num hmem => hdefault num (List.mem_cons_of_mem _ hmem)⟩
    · rintro rfl
      exact hnum (hdefault num List.mem_cons_self)
    · intro before profile' after heq
      have := hzero ((profile, num) :: before) profile' after (by rw [heq]; rfl)
      rw [List.map_cons, List.sum_cons] at this
      omega
  · rintro ⟨hprofile, hzero, hdefault⟩
    refine ⟨?_, ?_⟩
    · rintro (_ | ⟨first, before⟩) profile' after heq
      · obtain ⟨heq, -⟩ := List.cons.inj heq
        exact absurd (congrArg Prod.snd heq) hnum
      · obtain ⟨rfl, hrest⟩ := List.cons.inj heq
        rw [List.map_cons, List.sum_cons, hzero before profile' after hrest]
    · intro num' hmem
      rcases List.mem_cons.1 hmem with heq | hmem
      · exact absurd (congrArg Prod.fst heq).symm hprofile
      · exact hdefault num' hmem

theorem countsRight_of_all_zero {counts : List (Text × ℕ)} (h : ∀ entry ∈ counts, entry.2 = 0) :
    CountsRight counts 0 := by
  refine ⟨?_, fun num hmem => h _ hmem⟩
  rintro before profile after rfl
  refine List.sum_eq_zero fun num hnum => ?_
  obtain ⟨entry, hentry, rfl⟩ := List.mem_map.1 hnum
  exact h entry (List.mem_append_left _ hentry)

theorem slicesRight_cons_iff {profile : Text} {num : ℕ} {counts : List (Text × ℕ)} :
    SlicesRight ((profile, num) :: counts) servers ↔
      (sliceFrom (-(num : ℤ)) servers).length = (if profile = defaultProfile then 0 else num) ∧
        SlicesRight counts (sliceTo (-(num : ℤ)) servers) :=
  List.forall₂_cons

theorem slicesRight_nil {counts : List (Text × ℕ)} (h : ∀ entry ∈ counts, entry.2 = 0) :
    SlicesRight counts ([] : List σ) := by
  induction counts with
  | nil => exact .nil
  | cons entry counts ih =>
      obtain ⟨profile, num⟩ := entry
      rw [List.forall_mem_cons] at h
      obtain rfl : num = 0 := h.1
      rw [slicesRight_cons_iff]
      exact ⟨by simp [sliceFrom], by simpa [sliceTo] using ih h.2⟩

/-- The slices are right exactly when the counts are. -/
theorem slicesRight_iff {counts : List (Text × ℕ)} (hsum : (counts.map Prod.snd).sum ≤ servers.length) :
    SlicesRight counts servers ↔ CountsRight counts servers.length := by
  induction counts generalizing servers with
  | nil => exact ⟨fun _ => ⟨by simp, by simp⟩, fun _ => .nil⟩
  | cons entry counts ih =>
      obtain ⟨profile, num⟩ := entry
      rw [List.map_cons, List.sum_cons] at hsum
      simp only at hsum
      by_cases hnum : num = 0
      · subst hnum
        by_cases hservers : servers = []
        · -- nothing is left, so nothing more is given
          subst hservers
          have hzero : ∀ entry ∈ (profile, 0) :: counts, entry.2 = 0 := by
            refine List.forall_mem_cons.2 ⟨rfl, fun entry hentry => ?_⟩
            have := List.single_le_sum (by simp) entry.2 (List.mem_map_of_mem (f := Prod.snd) hentry)
            simp only [List.length_nil] at hsum
            omega
          exact ⟨fun _ => countsRight_of_all_zero hzero, fun _ => slicesRight_nil hzero⟩
        · -- the slice is all that is left
          have hlength : 0 < servers.length := List.length_pos_iff.2 hservers
          rw [slicesRight_cons_iff, length_sliceFrom_neg]
          constructor
          · intro h
            have hempty := h.1
            rw [if_pos rfl, ite_self] at hempty
            omega
          · intro h
            have := h.1 [] profile counts rfl
            simp at this
            omega
      · have hfrom : (sliceFrom (-(num : ℤ)) servers).length = num := by
          rw [length_sliceFrom_neg, if_neg hnum]
          omega
        have hall := congrArg List.length (sliceTo_append_sliceFrom (-(num : ℤ)) servers)
        rw [List.length_append, hfrom] at hall
        rw [slicesRight_cons_iff, hfrom, ih (by omega), ← hall, Nat.add_comm _ num, countsRight_cons_iff hnum]
        refine and_congr_left' ?_
        by_cases hprofile : profile = defaultProfile <;> simp [hprofile, hnum]

end Counts

/-! ## Who gets which profile -/

section Assigned

variable {σ : Type} {entries : List (Text × ℤ)} {servers : List σ}

/-- The servers with their profiles, in the order in which they are written. -/
def assigned (versionConfig : Dict Text (List σ)) : List (Text × σ) :=
  versionConfig.items.flatMap fun entry => entry.2.map fun server => (entry.1, server)

/-- The slice that the rest takes the place of. -/
def forgotten (entries : List (Text × ℤ)) (servers : List σ) : List σ :=
  ((slices entries servers).filter fun slice => slice.1 = defaultProfile).flatMap Prod.snd

theorem mem_assigned_iff {versionConfig : Dict Text (List σ)} {profile : Text} {server : σ} :
    (profile, server) ∈ assigned versionConfig ↔
      ∃ servers, versionConfig.get? profile = some servers ∧ server ∈ servers := by
  simp [assigned, Dict.get?_eq_some_iff]

/-- The profiles with their servers. -/
theorem items_versionConfig_perm (hnodup : (entries.map Prod.fst).Nodup) (servers : List σ) :
    (versionConfig entries servers).items ~
      (defaultProfile, remaining entries servers)
        :: (slices entries servers).filter fun slice => ¬ slice.1 = defaultProfile := by
  have hslices : ((slices entries servers).map Prod.fst).Nodup := by rwa [map_fst_slices]
  have hitems : (versionConfig entries servers).items.Nodup := List.Nodup.of_map _ (Dict.nodup_keys _)
  refine (List.perm_ext_iff_of_nodup hitems ?_).2 ?_
  · refine List.nodup_cons.2 ⟨by simp, ?_⟩
    exact (List.Nodup.of_map _ hslices).filter _
  · rintro ⟨profile, slice⟩
    rw [← Dict.get?_eq_some_iff, get?_versionConfig hnodup, List.mem_cons, List.mem_filter]
    by_cases hprofile : profile = defaultProfile
    · simp [hprofile, eq_comm]
    · simp [hprofile, Assoc.find_eq_some_iff _ _ _ hslices]

/-- Every server is assigned or forgotten. -/
theorem assigned_append_forgotten_perm (hnodup : (entries.map Prod.fst).Nodup) (servers : List σ) :
    (assigned (versionConfig entries servers)).map Prod.snd ++ forgotten entries servers ~ servers := by
  have hassigned : (assigned (versionConfig entries servers)).map Prod.snd
      = (versionConfig entries servers).items.flatMap Prod.snd := by
    simp [assigned, List.map_flatMap, Function.comp_def]
  have hfilter := List.filter_append_perm (fun slice => decide (¬ slice.1 = defaultProfile)) (slices entries servers)
  simp only [decide_not, Bool.not_not] at hfilter
  rw [hassigned, forgotten]
  calc (versionConfig entries servers).items.flatMap Prod.snd ++ _
      _ ~ (remaining entries servers
            ++ ((slices entries servers).filter fun slice => ¬ slice.1 = defaultProfile).flatMap Prod.snd) ++ _ :=
        ((items_versionConfig_perm hnodup servers).flatMap_right Prod.snd).append_right _
      _ ~ remaining entries servers ++ (slices entries servers).flatMap Prod.snd := by
        rw [List.append_assoc, ← List.flatMap_append]
        refine List.Perm.append_left _ (List.Perm.flatMap_right _ ?_)
        simpa using hfilter
      _ ~ servers := slices_perm entries servers

end Assigned

/-! ## What is written -/

section Config

variable {config : Config} {sectionName : Text}

/-- The profile that a section has. -/
def profileOf (config : Config) (sectionName : Text) : Option Text :=
  (config.get? sectionName).bind (·.get? profileOption)

/-- A section gets an option, and nothing else changes. -/
theorem setOption_spec (h : sectionName ∈ config.keys) (option value : Text) :
    ∃ config', config.setOption sectionName option value = some config' ∧
      (∀ s, s ∈ config'.keys ↔ s ∈ config.keys) ∧
      ∀ s, profileOf config' s
        = if s = sectionName ∧ option = profileOption then some value else profileOf config s := by
  obtain ⟨options, hoptions⟩ := Dict.mem_keys_iff_exists.1 h
  refine ⟨config.set sectionName (options.set option value), by simp [Config.setOption, hoptions], ?_, ?_⟩
  · intro s
    rw [Dict.mem_keys_set, or_iff_right_of_imp]
    rintro rfl
    exact h
  · intro s
    unfold profileOf
    rw [Dict.get?_set]
    by_cases hs : s = sectionName
    · subst hs
      rw [if_pos rfl, Option.bind_some, Dict.get?_set, hoptions, Option.bind_some]
      simp [eq_comm]
    · rw [if_neg hs, if_neg fun h => hs h.1]

/-- A server gets its profile, and no other server does. -/
theorem setServer_spec {server : Text × Text} (h : server.2 ∈ config.keys) (version : Option Text) (profile : Text) :
    ∃ config', setServer version profile config server = some config' ∧ (∀ s, s ∈ config'.keys ↔ s ∈ config.keys) ∧
      ∀ s, profileOf config' s = if s = server.2 then some profile else profileOf config s := by
  obtain ⟨first, hfirst, hkeys, hprofile⟩ := setOption_spec h profileOption profile
  obtain ⟨second, hsecond, hkeys', hprofile'⟩ := setOption_spec ((hkeys _).2 h) versionOption (written version)
  refine ⟨second, ?_, fun s => (hkeys' s).trans (hkeys s), fun s => ?_⟩
  · rw [setServer, hfirst]
    exact hsecond
  · have hoption : versionOption ≠ profileOption := by decide
    rw [hprofile' s, if_neg fun h => hoption h.2, hprofile s]
    simp

/-- The loop over servers with their profiles. -/
theorem foldlM_setServer (version : Text → Option Text) {servers : List (Text × (Text × Text))}
    (h : ∀ entry ∈ servers, entry.2.2 ∈ config.keys) (hnodup : (servers.map fun entry => entry.2.2).Nodup) :
    ∃ config', servers.foldlM (fun config entry => setServer (version entry.1) entry.1 config entry.2) config
        = some config' ∧
      (∀ entry ∈ servers, profileOf config' entry.2.2 = some entry.1) ∧
      ∀ s, s ∉ servers.map (fun entry => entry.2.2) → profileOf config' s = profileOf config s := by
  induction servers generalizing config with
  | nil => exact ⟨config, rfl, by simp, fun _ _ => rfl⟩
  | cons entry servers ih =>
      rw [List.forall_mem_cons] at h
      rw [List.map_cons, List.nodup_cons] at hnodup
      obtain ⟨next, hnext, hkeys, hprofile⟩ := setServer_spec h.1 (version entry.1) entry.1
      obtain ⟨last, hlast, hassigned, hothers⟩ := ih (fun e he => (hkeys _).2 (h.2 e he)) hnodup.2
      refine ⟨last, by rw [List.foldlM_cons, hnext]; exact hlast, List.forall_mem_cons.2 ⟨?_, hassigned⟩, ?_⟩
      · rw [hothers _ hnodup.1, hprofile, if_pos rfl]
      · intro s hs
        rw [List.map_cons, List.mem_cons, not_or] at hs
        rw [hothers s hs.2, hprofile, if_neg hs.1]

/-- The loops over the profiles and their servers are one. -/
theorem mixedBuild_eq {servers : Dict Text Text} (h : config.get? serversSection = some servers)
    (cbVersion columnarVersion : Option Text) (entries : List (Text × ℤ)) :
    mixedBuild cbVersion columnarVersion entries config
      = (assigned (versionConfig entries servers.items)).foldlM (fun config entry => setServer
          (if entry.1 ∈ ["columnar".toList, "analytics".toList] then columnarVersion else cbVersion) entry.1 config
          entry.2) config := by
  unfold mixedBuild assigned
  rw [h]
  simp only [Option.bind_eq_bind, Option.bind_some]
  generalize (versionConfig entries servers.items).items = items
  clear h
  induction items generalizing config with
  | nil => rfl
  | cons entry items ih =>
      rw [List.foldlM_cons, List.flatMap_cons, List.foldlM_append, List.foldlM_map]
      exact congrArg _ (funext fun config => ih)

end Config

/-! ## The servers of an ini file -/

/-- The servers of the section `[servers]`: each has a section of its own. -/
structure IniServers where
  servers : Dict Text Text
  nodup : (servers.items.map Prod.snd).Nodup
  own : serversSection ∉ servers.items.map Prod.snd

/-- The ini file has these servers. -/
structure IniServers.In (ini : IniServers) (config : Config) : Prop where
  servers : config.get? serversSection = some ini.servers
  sections : ∀ server ∈ ini.servers.items, server.2 ∈ config.keys

/-- Whatever else is in the ini file: each profile is given to its number of servers, and each of the servers has one
    of the profiles or the default one. -/
def Right (ini : IniServers) (mixedBuildConfig : Dict Text ℕ) : Prop :=
  ∀ (config : Config) (cbVersion columnarVersion : Option Text), ini.In config →
    ∃ config', mixedBuild cbVersion columnarVersion (asInts mixedBuildConfig.items) config = some config' ∧
      (∀ profile num, (profile, num) ∈ mixedBuildConfig.items → profile ≠ defaultProfile →
        (ini.servers.items.filter fun server => profileOf config' server.2 = some profile).length = num) ∧
      ∀ server ∈ ini.servers.items, ∃ profile, profileOf config' server.2 = some profile ∧
        (profile = defaultProfile ∨ profile ∈ mixedBuildConfig.keys)

section Ini

variable {ini : IniServers} {counts : List (Text × ℕ)} {entries : List (Text × ℤ)} {config : Config}

/-- The servers that are assigned get their profiles, and the others keep what they have. -/
theorem mixedBuild_spec (hin : ini.In config) (hnodup : (entries.map Prod.fst).Nodup)
    (cbVersion columnarVersion : Option Text) :
    ∃ config', mixedBuild cbVersion columnarVersion entries config = some config' ∧
      (∀ profile server, (profile, server) ∈ assigned (versionConfig entries ini.servers.items) →
        profileOf config' server.2 = some profile) ∧
      ∀ server ∈ forgotten entries ini.servers.items, profileOf config' server.2 = profileOf config server.2 := by
  have hperm := assigned_append_forgotten_perm hnodup ini.servers.items
  have hsections : ((assigned (versionConfig entries ini.servers.items)).map fun entry => entry.2.2)
      ++ (forgotten entries ini.servers.items).map Prod.snd ~ ini.servers.items.map Prod.snd := by
    have := hperm.map Prod.snd
    rwa [List.map_append, List.map_map] at this
  have hall := hsections.nodup_iff.2 ini.nodup
  rw [List.nodup_append'] at hall
  obtain ⟨hassigned, -, hdisjoint⟩ := hall
  obtain ⟨config', hconfig', hprofiles, hothers⟩ := @foldlM_setServer config
    (fun profile => if profile ∈ ["columnar".toList, "analytics".toList] then columnarVersion else cbVersion) _
    (fun entry hentry => hin.sections entry.2 (hperm.subset (List.mem_append_left _ (List.mem_map_of_mem hentry))))
    hassigned
  refine ⟨config', ?_, fun profile server hmem => hprofiles _ hmem, ?_⟩
  · rw [mixedBuild_eq hin.servers]
    exact hconfig'
  · intro server hserver
    exact hothers _ fun hmem => hdisjoint hmem (List.mem_map_of_mem hserver)

/-! ## The numbers of servers -/

/-- Lists with the same keys are related when what they have under each key is. -/
theorem forall₂_iff_of_keys {κ α β : Type} {R : κ × α → κ × β → Prop} {l : List (κ × α)} {m : List (κ × β)}
    (hkeys : l.map Prod.fst = m.map Prod.fst) (hnodup : (l.map Prod.fst).Nodup) :
    List.Forall₂ R l m ↔ ∀ a ∈ l, ∀ b ∈ m, a.1 = b.1 → R a b := by
  induction l generalizing m with
  | nil =>
      obtain rfl : m = [] := List.map_eq_nil_iff.1 hkeys.symm
      simp
  | cons a l ih =>
      obtain ⟨b, m, rfl⟩ : ∃ b m', m = b :: m' := List.exists_cons_of_ne_nil (by rintro rfl; simp at hkeys)
      rw [List.map_cons, List.map_cons, List.cons.injEq] at hkeys
      obtain ⟨hkey, hkeys⟩ := hkeys
      rw [List.map_cons, List.nodup_cons] at hnodup
      have hfresh : ∀ b ∈ m, a.1 ≠ b.1 := by
        intro b hb heq
        exact hnodup.1 (hkeys ▸ heq ▸ List.mem_map_of_mem hb)
      have hfresh' : ∀ a' ∈ l, a'.1 ≠ b.1 := by
        intro a' ha' heq
        exact hnodup.1 (hkey.trans heq.symm ▸ List.mem_map_of_mem ha')
      rw [List.forall₂_cons, ih hkeys hnodup.2]
      constructor
      · rintro ⟨hfirst, hrest⟩ a' ha' b' hb' heq
        rcases List.mem_cons.1 ha' with rfl | ha' <;> rcases List.mem_cons.1 hb' with rfl | hb'
        · exact hfirst
        · exact absurd heq (hfresh _ hb')
        · exact absurd heq (hfresh' _ ha')
        · exact hrest _ ha' _ hb' heq
      · intro h
        refine ⟨h _ List.mem_cons_self _ List.mem_cons_self hkey, fun a' ha' b' hb' => ?_⟩
        exact h _ (List.mem_cons_of_mem _ ha') _ (List.mem_cons_of_mem _ hb')

theorem map_fst_asInts (counts : List (Text × ℕ)) : (asInts counts).map Prod.fst = counts.map Prod.fst := by
  simp [asInts, Function.comp_def]

/-- The slices are right when no server is forgotten and each profile has its number of servers. -/
theorem slicesRight_iff_forgotten (hnodup : (counts.map Prod.fst).Nodup) {σ : Type} (servers : List σ) :
    SlicesRight counts servers ↔ forgotten (asInts counts) servers = [] ∧
      ∀ profile num, (profile, num) ∈ counts → profile ≠ defaultProfile →
        (((versionConfig (asInts counts) servers).get? profile).getD []).length = num := by
  have hints : ((asInts counts).map Prod.fst).Nodup := by rwa [map_fst_asInts]
  have hkeys : counts.map Prod.fst = (slices (asInts counts) servers).map Prod.fst := by
    rw [map_fst_slices, map_fst_asInts]
  have hslices := hkeys ▸ hnodup
  unfold SlicesRight forgotten
  rw [forall₂_iff_of_keys hkeys hnodup]
  constructor
  · intro h
    refine ⟨?_, ?_⟩
    · simp only [List.flatMap_eq_nil_iff, List.mem_filter, decide_eq_true_eq]
      rintro slice ⟨hslice, hdefault⟩
      obtain ⟨entry, hentry, hkey⟩ := List.mem_map.1 (hkeys ▸ List.mem_map_of_mem hslice)
      have := h entry hentry slice hslice hkey
      rwa [hkey, if_pos hdefault, List.length_eq_zero_iff] at this
    · intro profile num hmem hprofile
      obtain ⟨slice, hslice, hkey⟩ := List.mem_map.1 (hkeys ▸ List.mem_map_of_mem hmem)
      obtain rfl : slice.1 = profile := hkey
      rw [get?_versionConfig hints, if_neg hprofile, (Assoc.find_eq_some_iff _ slice.2 _ hslices).2 hslice]
      simpa [hprofile] using h _ hmem slice hslice rfl
  · rintro ⟨hforgotten, hnum⟩ ⟨profile, num⟩ hmem ⟨profile', slice⟩ hslice rfl
    by_cases hprofile : profile = defaultProfile
    · simp only [List.flatMap_eq_nil_iff, List.mem_filter, decide_eq_true_eq] at hforgotten
      rw [if_pos hprofile, hforgotten _ ⟨hslice, hprofile⟩]
      rfl
    · have := hnum profile num hmem hprofile
      rw [get?_versionConfig hints, if_neg hprofile, (Assoc.find_eq_some_iff _ slice _ hslices).2 hslice] at this
      simpa [hprofile] using this

/-- As many servers are assigned to a profile as its list has. -/
theorem length_filter_assigned {σ : Type} (versionConfig : Dict Text (List σ)) (profile : Text) :
    ((assigned versionConfig).filter fun entry => entry.1 = profile).length
      = ((versionConfig.get? profile).getD []).length := by
  have hitems : ∀ items : List (Text × List σ), (items.map Prod.fst).Nodup →
      ((items.flatMap fun entry => entry.2.map fun server => (entry.1, server)).filter
        fun entry => entry.1 = profile).length = ((Assoc.find profile items).getD []).length := by
    intro items
    induction items with
    | nil => intro _; rfl
    | cons entry items ih =>
        intro hnodup
        rw [List.map_cons, List.nodup_cons] at hnodup
        rw [List.flatMap_cons, List.filter_append, List.length_append, ih hnodup.2, Assoc.find, List.filter_map,
          List.length_map]
        by_cases hkey : entry.1 = profile
        · have hnone : Assoc.find profile items = none := (Assoc.find_eq_none_iff _ _).2 (hkey ▸ hnodup.1)
          simp [Function.comp_def, hkey, hnone]
        · simp [Function.comp_def, hkey]
  exact hitems _ versionConfig.nodup_keys

/-- When no server is forgotten, the servers with a profile are those assigned to it. -/
theorem length_filter_profileOf (hnodup : (entries.map Prod.fst).Nodup)
    (hforgotten : forgotten entries ini.servers.items = [])
    (hprofiles : ∀ profile server, (profile, server) ∈ assigned (versionConfig entries ini.servers.items) →
      profileOf config server.2 = some profile) (profile : Text) :
    (ini.servers.items.filter fun server => profileOf config server.2 = some profile).length
      = (((versionConfig entries ini.servers.items).get? profile).getD []).length := by
  have hperm := assigned_append_forgotten_perm hnodup ini.servers.items
  rw [hforgotten, List.append_nil] at hperm
  rw [← length_filter_assigned, ← (hperm.filter _).length_eq, List.filter_map, List.length_map]
  refine congrArg List.length (List.filter_congr fun entry hentry => ?_)
  simp [hprofiles entry.1 entry.2 hentry]

/-! ## When it is right -/

/-- An ini file with these servers and nothing else. -/
def IniServers.blank (ini : IniServers) : Config :=
  ((ini.servers.items.map fun server : Text × Text => (server.2, (∅ : Dict Text Text))).foldl
    (fun config entry => Dict.set config entry.1 entry.2) (∅ : Config)).set serversSection ini.servers

theorem IniServers.get?_blank (ini : IniServers) (sectionName : Text) :
    ini.blank.get? sectionName = if sectionName = serversSection then some ini.servers
      else Assoc.find sectionName (ini.servers.items.map fun server => (server.2, ∅)) := by
  unfold IniServers.blank
  rw [Dict.get?_set, Dict.get?_foldl_set _ (by simpa [Function.comp_def] using ini.nodup), Dict.get?_empty,
    Option.or_none]

/-- The section of a server is empty. -/
theorem IniServers.get?_blank_of_mem {server : Text × Text} (h : server ∈ ini.servers.items) :
    ini.blank.get? server.2 = some ∅ := by
  have hown : server.2 ≠ serversSection := fun heq => ini.own (heq ▸ List.mem_map_of_mem h)
  rw [ini.get?_blank, if_neg hown, Assoc.find_eq_some_iff _ _ _ (by simpa [Function.comp_def] using ini.nodup)]
  exact List.mem_map.2 ⟨server, h, rfl⟩

theorem IniServers.in_blank (ini : IniServers) : ini.In ini.blank := by
  refine ⟨by rw [ini.get?_blank, if_pos rfl], fun server hserver => ?_⟩
  exact Dict.mem_keys_of_get? (IniServers.get?_blank_of_mem hserver)

theorem IniServers.profileOf_blank {server : Text × Text} (h : server ∈ ini.servers.items) :
    profileOf ini.blank server.2 = none := by
  unfold profileOf
  rw [IniServers.get?_blank_of_mem h]
  rfl

/-- The servers have the right profiles exactly when the slices are right: in a blank ini file, a server that is
    forgotten has no profile. -/
theorem right_iff_slicesRight (mixedBuildConfig : Dict Text ℕ) :
    Right ini mixedBuildConfig ↔ SlicesRight mixedBuildConfig.items ini.servers.items := by
  have hnodup : (mixedBuildConfig.items.map Prod.fst).Nodup := mixedBuildConfig.nodup_keys
  have hints : ((asInts mixedBuildConfig.items).map Prod.fst).Nodup := by rwa [map_fst_asInts]
  have hperm := assigned_append_forgotten_perm hints ini.servers.items
  rw [slicesRight_iff_forgotten hnodup]
  constructor
  · intro h
    obtain ⟨config', hconfig', hnums, hservers⟩ := h ini.blank none none ini.in_blank
    obtain ⟨config, hconfig, hprofiles, hothers⟩ := mixedBuild_spec ini.in_blank hints none none
    obtain rfl : config = config' := Option.some.inj (hconfig.symm.trans hconfig')
    have hforgotten : forgotten (asInts mixedBuildConfig.items) ini.servers.items = [] := by
      refine List.eq_nil_iff_forall_not_mem.2 fun server hserver => ?_
      have hmem := hperm.subset (List.mem_append_right _ hserver)
      obtain ⟨profile, hprofile, -⟩ := hservers server hmem
      rw [hothers server hserver, IniServers.profileOf_blank hmem] at hprofile
      cases hprofile
    refine ⟨hforgotten, fun profile num hmem hprofile => ?_⟩
    rw [← length_filter_profileOf hints hforgotten hprofiles]
    exact hnums profile num hmem hprofile
  · rintro ⟨hforgotten, hnums⟩ config cbVersion columnarVersion hin
    obtain ⟨config', hconfig', hprofiles, -⟩ := mixedBuild_spec hin hints cbVersion columnarVersion
    refine ⟨config', hconfig', fun profile num hmem hprofile => ?_, fun server hserver => ?_⟩
    · rw [length_filter_profileOf hints hforgotten hprofiles]
      exact hnums profile num hmem hprofile
    · rw [hforgotten, List.append_nil] at hperm
      obtain ⟨⟨profile, server⟩, hentry, rfl⟩ := List.mem_map.1 (hperm.symm.subset hserver)
      refine ⟨profile, hprofiles _ _ hentry, ?_⟩
      obtain ⟨servers, hget, -⟩ := mem_assigned_iff.1 hentry
      rw [get?_versionConfig hints] at hget
      by_cases hprofile : profile = defaultProfile
      · exact .inl hprofile
      · rw [if_neg hprofile] at hget
        have hkey := (Assoc.find_isSome_iff profile _).1 (Option.isSome_of_eq_some hget)
        rw [map_fst_slices, map_fst_asInts] at hkey
        exact .inr hkey

/-- Each profile is given to its number of servers, and all others have the default one, exactly when a count of 0 only
    comes when no servers are left and the default profile is not given any. -/
theorem mixedBuild_right_iff (ini : IniServers) (mixedBuildConfig : Dict Text ℕ)
    (hsum : (mixedBuildConfig.items.map Prod.snd).sum ≤ ini.servers.items.length) :
    Right ini mixedBuildConfig ↔ CountsRight mixedBuildConfig.items ini.servers.items.length := by
  rw [right_iff_slicesRight, slicesRight_iff hsum]

end Ini

/-- One server, `1:_1`. -/
def oneServer : IniServers where
  servers := (∅ : Dict Text Text).set "1".toList "_1".toList
  nodup := by decide
  own := by decide

/-- `{"columnar": num}`. -/
def columnarOnly (num : ℕ) : Dict Text ℕ := (∅ : Dict Text ℕ).set "columnar".toList num

/-- Four servers, `1:_1` to `4:_4`. -/
def fourServers : IniServers where
  servers := ["1", "2", "3", "4"].foldl (fun servers key => servers.set key.toList ("_" ++ key).toList) ∅
  nodup := by decide
  own := by decide

/-- `{"columnar": 2, "analytics": 1}`. -/
def twoProfiles : Dict Text ℕ := (columnarOnly 2).set "analytics".toList 1

/-- One server is left for the default profile. -/
theorem right_fourServers : Right fourServers twoProfiles := by
  have hitems : twoProfiles.items = [("columnar".toList, 2), ("analytics".toList, 1)] := rfl
  refine (mixedBuild_right_iff fourServers twoProfiles (by decide)).2 ⟨?_, ?_⟩
  · intro before profile after heq
    have hmem : (profile, 0) ∈ twoProfiles.items := by
      rw [heq]
      exact List.mem_append_right _ List.mem_cons_self
    simp [hitems] at hmem
  · intro num hmem
    have hne : ∀ entry ∈ twoProfiles.items, entry.1 ≠ defaultProfile := by decide
    exact absurd rfl (hne _ hmem)

/-- A profile that is to have no servers gets all of them. -/
theorem mixedBuild_zero : ¬ ∀ (ini : IniServers) (mixedBuildConfig : Dict Text ℕ),
    (mixedBuildConfig.items.map Prod.snd).sum ≤ ini.servers.items.length → Right ini mixedBuildConfig := by
  intro h
  have hslices := (right_iff_slicesRight _).1 (h oneServer (columnarOnly 0) (by decide))
  cases hslices with
  | cons hslice _ => revert hslice; decide

end TestInfra.PopulateIni
