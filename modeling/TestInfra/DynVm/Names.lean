import TestInfra.DynVm.Xen
import TestInfra.Lib.PyInt

set_option autoImplicit false

/-! # The names of the VMs of two users

A user name is the name of a single VM, and the beginning of the names of several, to which `generate_vm_names` adds
a number. All users share one space of names: `a` with two VMs and `a1` with one both have a VM `a1`, and
`release_servers` goes by the name alone. `generateVmNames_disjoint_iff` says which requests have a name in common. -/

namespace TestInfra

namespace DynVm

namespace Xen

open PyText

/-! ## Numbers behind a name -/

/-- `longer` is `shorter` with a number behind it, which is one of the numbers that `shorter` has, or the beginning
    of one when `longer` is numbered as well. -/
def Extends (longer : String) (count : Int) (shorter : String) (count' : Int) : Prop :=
  ∃ k : ℕ, 1 ≤ k ∧ longer = shorter ++ toString k ∧ 2 ≤ count' ∧
    (count = 1 ∧ (k : Int) ≤ count' ∨ 2 ≤ count ∧ 10 * (k : Int) + 1 ≤ count')

theorem mem_generateVmNames_one {name vm : String} : vm ∈ generateVmNames name 1 ↔ vm = name := List.mem_singleton

theorem mem_generateVmNames {name vm : String} {count : Int} (hcount : count ≠ 1) :
    vm ∈ generateVmNames name count ↔ ∃ i : ℕ, 1 ≤ i ∧ (i : Int) ≤ count ∧ vm = name ++ toString i := by
  rw [generateVmNames]
  by_cases hzero : count = 0
  · rw [if_pos hzero]
    refine ⟨fun h => absurd h List.not_mem_nil, ?_⟩
    rintro ⟨i, hi, hle, -⟩
    omega
  · rw [if_neg hzero, if_neg hcount, List.mem_map]
    constructor
    · rintro ⟨i, hi, rfl⟩
      rw [List.mem_range] at hi
      exact ⟨i + 1, Nat.le_add_left 1 i, by omega, rfl⟩
    · rintro ⟨i, hi, hle, rfl⟩
      refine ⟨i - 1, List.mem_range.2 (by omega), ?_⟩
      rw [Nat.sub_add_cancel hi]

/-- A number behind a number, as a number. -/
theorem toString_append_toString {k d : ℕ} (hk : 1 ≤ k) (hd : d < 10) :
    toString k ++ toString d = toString (10 * k + d) := by
  apply String.toList_inj.1
  rw [String.toList_append, toList_toString, toList_toString, toList_toString]
  exact Nat.toDigits_append_toDigits (by decide) hk hd

/-- Two numbered names that are the same: the longer user name ends in the beginning of the number of the other. -/
theorem exists_of_numbered_eq {u v : String} (huv : u ≠ v) {i j : ℕ} (hi : 1 ≤ i) (hj : 1 ≤ j)
    (h : u ++ toString i = v ++ toString j) (hle : v.toList.length ≤ u.toList.length) :
    ∃ k, 1 ≤ k ∧ u = v ++ toString k ∧ 10 * k + 1 ≤ j := by
  have htext : u.toList ++ Nat.toDigits 10 i = v.toList ++ Nat.toDigits 10 j := by
    have := congrArg String.toList h
    rwa [String.toList_append, String.toList_append, toList_toString, toList_toString] at this
  obtain ⟨w, hw, hdigits⟩ : ∃ w, u.toList = v.toList ++ w ∧ Nat.toDigits 10 j = w ++ Nat.toDigits 10 i := by
    rcases List.append_eq_append_iff.1 htext with ⟨w, hv, hi'⟩ | ⟨w, hu, hj'⟩
    · have hnil : w = [] := by
        rw [← List.length_eq_zero_iff]
        have := congrArg List.length hv
        rw [List.length_append] at this
        omega
      subst hnil
      rw [List.append_nil] at hv
      exact absurd (String.toList_inj.1 hv).symm huv
    · exact ⟨w, hu, hj'⟩
  have hne : w ≠ [] := by
    rintro rfl
    rw [List.append_nil] at hw
    exact huv (String.toList_inj.1 hw)
  obtain ⟨k, hk, rfl⟩ := exists_toDigits_of_append hj hne hdigits
  refine ⟨k, hk, ?_, ?_⟩
  · apply String.toList_inj.1
    rw [hw, String.toList_append, toList_toString]
  · have hvalue : j = 10 ^ (Nat.toDigits 10 i).length * k + i := by
      rw [← ofDigitChars_append_toDigits, ← hdigits, Nat.ofDigitChars_ten_toDigits]
    have hten : 10 ≤ 10 ^ (Nat.toDigits 10 i).length := Nat.le_self_pow (by
      rw [Ne, List.length_eq_zero_iff]
      exact Nat.toDigits_ne_nil) 10
    have hmul := Nat.mul_le_mul_right k hten
    omega

/-! ## Names in common -/

theorem not_disjoint_of_extends {u v : String} {count count' : Int} (h : Extends u count v count') :
    ∃ vm, vm ∈ generateVmNames u count ∧ vm ∈ generateVmNames v count' := by
  obtain ⟨k, hk, rfl, hcount', ⟨rfl, hle⟩ | ⟨hcount, hle⟩⟩ := h
  · exact ⟨_, mem_generateVmNames_one.2 rfl, (mem_generateVmNames (by omega)).2 ⟨k, hk, hle, rfl⟩⟩
  · refine ⟨v ++ toString k ++ toString 1, (mem_generateVmNames (by omega)).2 ⟨1, Nat.le_refl 1, by omega, rfl⟩, ?_⟩
    refine (mem_generateVmNames (by omega)).2 ⟨10 * k + 1, by omega, by omega, ?_⟩
    rw [String.append_assoc, toString_append_toString hk (by decide)]

theorem extends_of_mem {u v : String} (huv : u ≠ v) {count count' : Int} {vm : String}
    (hu : vm ∈ generateVmNames u count) (hv : vm ∈ generateVmNames v count') :
    Extends u count v count' ∨ Extends v count' u count := by
  by_cases hone : count = 1 <;> by_cases hone' : count' = 1
  · subst hone hone'
    rw [mem_generateVmNames_one] at hu hv
    exact absurd (hu.symm.trans hv) huv
  · subst hone
    rw [mem_generateVmNames_one] at hu
    obtain ⟨i, hi, hle, hvm⟩ := (mem_generateVmNames hone').1 hv
    refine .inl ⟨i, hi, hu.symm.trans hvm, ?_, .inl ⟨rfl, hle⟩⟩
    omega
  · subst hone'
    rw [mem_generateVmNames_one] at hv
    obtain ⟨i, hi, hle, hvm⟩ := (mem_generateVmNames hone).1 hu
    refine .inr ⟨i, hi, hv.symm.trans hvm, ?_, .inl ⟨rfl, hle⟩⟩
    omega
  · obtain ⟨i, hi, hile, hui⟩ := (mem_generateVmNames hone).1 hu
    obtain ⟨j, hj, hjle, hvj⟩ := (mem_generateVmNames hone').1 hv
    have heq : u ++ toString i = v ++ toString j := hui.symm.trans hvj
    rcases Nat.le_total v.toList.length u.toList.length with hlen | hlen
    · obtain ⟨k, hk, hname, hkj⟩ := exists_of_numbered_eq huv hi hj heq hlen
      exact .inl ⟨k, hk, hname, by omega, .inr ⟨by omega, by omega⟩⟩
    · obtain ⟨k, hk, hname, hki⟩ := exists_of_numbered_eq huv.symm hj hi heq.symm hlen
      exact .inr ⟨k, hk, hname, by omega, .inr ⟨by omega, by omega⟩⟩

/-- `release_servers` for a user deletes no VM that was created for the other one. -/
def Spares (u : String) (count : Int) (v : String) (count' : Int) : Prop :=
  ∀ (config : Config) (w : World), ∀ m ∈ w.machines, m.user = v → m.name ∈ generateVmNames v count' →
    m ∈ (releaseServers config u count w).machines

/-- One host. -/
def singleHost : Config := ⟨[0], List.nodup_singleton 0, 0⟩

/-- One VM on that host. -/
def singleMachine (user name : String) : World :=
  ⟨[⟨0, name, 0, user, 0, 0⟩], [], 1, fun m hm => by rw [List.mem_singleton.1 hm]; exact Nat.one_pos⟩

theorem spares_iff_disjoint {u v : String} {count count' : Int} :
    Spares u count v count' ↔ (generateVmNames u count).Disjoint (generateVmNames v count') := by
  constructor
  · intro h vm hu hv
    have hkept := h singleHost (singleMachine v vm) _ (List.mem_singleton_self _) rfl hv
    rw [releaseServers_eq] at hkept
    have hp := (List.mem_filter.1 hkept).2
    simp [singleHost, hu] at hp
  · intro h config w m hm _ hname
    rw [releaseServers_eq]
    refine List.mem_filter.2 ⟨hm, ?_⟩
    have hnot : m.name ∉ generateVmNames u count := fun hu => h hu hname
    simp [hnot]

/-- **Which requests of two users have names of their own**: all those where neither user name is the other one with
    a number behind it that the other one reaches. In exactly these cases `release_servers` spares the VMs of the
    other user. -/
theorem generateVmNames_disjoint_iff (u v : String) (huv : u ≠ v) (count count' : Int) :
    ((generateVmNames u count).Disjoint (generateVmNames v count') ↔
        ¬ (Extends u count v count' ∨ Extends v count' u count)) ∧
      (Spares u count v count' ↔ ¬ (Extends u count v count' ∨ Extends v count' u count)) := by
  have hiff : (generateVmNames u count).Disjoint (generateVmNames v count') ↔
      ¬ (Extends u count v count' ∨ Extends v count' u count) := by
    constructor
    · rintro h (hext | hext)
      · obtain ⟨vm, hu, hv⟩ := not_disjoint_of_extends hext
        exact h hu hv
      · obtain ⟨vm, hv, hu⟩ := not_disjoint_of_extends hext
        exact h hu hv
    · intro h vm hu hv
      exact h (extends_of_mem huv hu hv)
  exact ⟨hiff, spares_iff_disjoint.trans hiff⟩

theorem generateVmNames_disjoint_iff_letters :
    ((generateVmNames "a" 3).Disjoint (generateVmNames "b" 5) ↔ ¬ (Extends "a" 3 "b" 5 ∨ Extends "b" 5 "a" 3)) ∧
      (Spares "a" 3 "b" 5 ↔ ¬ (Extends "a" 3 "b" 5 ∨ Extends "b" 5 "a" 3)) :=
  generateVmNames_disjoint_iff "a" "b" (by decide) 3 5

/-- Two VMs of `a` and the single VM of `a1`: releasing the first ones deletes it. -/
theorem names_clash :
    ¬ (generateVmNames "a" 2).Disjoint (generateVmNames "a1" 1) ∧ ¬ Spares "a" 2 "a1" 1 := by
  have hnot : ¬ (generateVmNames "a" 2).Disjoint (generateVmNames "a1" 1) := by
    intro h
    exact h (a := "a1") (by decide) (by decide)
  exact ⟨hnot, fun h => hnot (spares_iff_disjoint.1 h)⟩

end Xen

end DynVm

end TestInfra
