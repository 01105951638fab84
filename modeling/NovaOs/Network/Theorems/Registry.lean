import NovaOs.Network.Lemmas.Hooks

/-!
# The registry of devices stays well formed

Whatever is registered, unregistered, dropped and registered again, the head of the registry leads to a finite list
of different devices with different names, and every loop over it ends.
-/

namespace NovaOs.Network

open Lib

variable {pool : Nat} {drivers : Nat → NovaNetDeviceOps pool} {net net' : Net pool} {devs : List (DevPtr pool)}

/-- The registry is the list `devs`, and every call on it answers for this list. -/
structure RegistryMeets (drivers : Nat → NovaNetDeviceOps pool) (net : Net pool) (devs : List (DevPtr pool)) : Prop where
  chain : Linked net.next net.registry devs
  nodup : devs.Nodup
  names : (devs.map net.name).Nodup
  register : ∀ dev?, ∃ result net', novaNetdevRegister drivers net dev? = some (result, net') ∧
    (result = 0 ↔ ∃ dev, dev? = some dev ∧ net.name dev ≠ "" ∧ ∀ d ∈ devs, net.name d ≠ net.name dev) ∧
    (∀ dev, dev? = some dev → result = 0 → RegistryIs net' (dev :: devs)) ∧
    (result ≠ 0 → result = -1 ∧ net' = net)
  unregister : ∀ dev?, ∃ result net', novaNetdevUnregister net dev? = some (result, net') ∧
    (result = 0 ↔ ∃ dev ∈ devs, dev? = some dev) ∧
    (∀ dev, dev? = some dev → result = 0 → RegistryIs net' (devs.erase dev)) ∧
    (result ≠ 0 → result = -1 ∧ net' = net)
  find : ∀ name?, ∃ dev?, novaNetdevFind net name? = some dev? ∧
    ∀ dev, dev? = some dev ↔ dev ∈ devs ∧ name? = some (net.name dev)
  shutdown : ∃ net', novaNetworkShutdown net = some (0, net') ∧ RegistryIs net' []

theorem RegistryIs.meets (h : RegistryIs net devs) (hopens : OpensKeep drivers Net.SameRegistry) :
    RegistryMeets drivers net devs where
  chain := h.linked
  nodup := h.nodup
  names := h.names
  register dev? := by
    rcases h.register hopens ignoresStack_sameRegistry dev? with
      ⟨hrefused, hregister⟩ | ⟨dev, net', rfl, haccepts, hregister, hsame⟩
    · refine ⟨-1, net, hregister, iff_of_false (by decide) ?_, by simp, by simp⟩
      rintro ⟨dev, hdev, haccepts⟩
      exact hrefused dev hdev haccepts
    · refine ⟨0, net', hregister, iff_of_true rfl ⟨dev, rfl, haccepts⟩, fun dev' hdev' _ => ?_, by simp⟩
      cases hdev'
      exact (h.link haccepts).same hsame
  unregister dev? := by
    rcases h.unregister_cases dev? with ⟨hrefused, hunregister⟩ | ⟨dev, net', rfl, hdev, hunregister, herase, _⟩
    · refine ⟨-1, net, hunregister, iff_of_false (by decide) ?_, by simp, by simp⟩
      rintro ⟨dev, hdev, hsome⟩
      exact hrefused dev hsome hdev
    · refine ⟨0, net', hunregister, iff_of_true rfl ⟨dev, hdev, rfl⟩, fun dev' hdev' _ => ?_, by simp⟩
      cases hdev'
      exact herase
  find := h.find_eq_some_iff
  shutdown := by
    obtain ⟨net', hshutdown, hregistry, _⟩ := h.exists_shutdown
    exact ⟨net', hshutdown, .of_empty hregistry⟩

/-- Every call on the registry has a result and leaves a registry. Only named devices are added, and no name is
changed but that of a device outside the registry. -/
theorem RegistryIs.next (h : RegistryIs net devs) (hopens : OpensKeep drivers Net.SameRegistry) {op : RegistryOp pool}
    (hop : ProperEdit (some net) op) :
    ∃ answer net' devs', registryStep drivers net op = some (answer, net') ∧ RegistryIs net' devs' ∧
      (∀ dev ∈ devs', dev ∈ devs ∨ net.name dev ≠ "") ∧
      ∀ dev, (dev ∈ devs' ∨ ∀ n, dev ≠ .other n) → net'.name dev = net.name dev := by
  cases op with
  | init => exact ⟨_, _, [], rfl, .of_empty rfl, by simp, fun _ _ => rfl⟩
  | shutdown =>
      obtain ⟨net', hshutdown, hregistry, _, hrelinked⟩ := h.exists_shutdown
      exact ⟨_, net', [], by rw [registryStep, hshutdown]; rfl, .of_empty hregistry, by simp,
        fun dev _ => hrelinked.name dev⟩
  | register dev? =>
      rcases h.register hopens ignoresStack_sameRegistry dev? with
        ⟨_, hregister⟩ | ⟨dev, net', _, haccepts, hregister, hsame⟩
      · exact ⟨_, net, devs, by rw [registryStep, hregister]; rfl, h, fun _ hd => .inl hd, fun _ _ => rfl⟩
      · refine ⟨_, net', dev :: devs, by rw [registryStep, hregister]; rfl, (h.link haccepts).same hsame,
          fun d hd => ?_, fun d _ => (hsame.name d).trans ((net.relinked_link dev).name d)⟩
        cases List.mem_cons.mp hd with
        | inl he => exact .inr (he ▸ haccepts.1)
        | inr hd => exact .inl hd
  | unregister dev? =>
      rcases h.unregister_cases dev? with ⟨_, hunregister⟩ | ⟨dev, net', _, _, hunregister, herase, hrelinked, _⟩
      · exact ⟨_, net, devs, by rw [registryStep, hunregister]; rfl, h, fun _ hd => .inl hd, fun _ _ => rfl⟩
      · exact ⟨_, net', devs.erase dev, by rw [registryStep, hunregister]; rfl, herase,
          fun d hd => .inl (List.mem_of_mem_erase hd), fun d _ => hrelinked.name d⟩
  | find name? =>
      obtain ⟨dev?, hfind, _⟩ := h.find_eq_some_iff name?
      exact ⟨_, net, devs, by rw [registryStep, hfind]; rfl, h, fun _ hd => .inl hd, fun _ _ => rfl⟩
  | edit n device =>
      obtain ⟨hnext, hname⟩ := hop net rfl
      have hname' : .other n ∈ devs → device.name = net.name (.other n) := fun hdev =>
        hname (h.registered_iff.mpr hdev)
      refine ⟨_, _, devs, rfl, h.edit hnext hname', fun _ hd => .inl hd, fun d hd => ?_⟩
      rw [Net.name, Net.devices_setDevice]
      split
      · next he =>
          subst he
          exact hname' (hd.resolve_right fun hne => hne n rfl)
      · rfl

/-- In every state of every run from the start of the program, the registry is a finite list of different devices
with different names, and registering, unregistering, finding and shutting down answer for this list. -/
theorem registry_well_formed (hopens : OpensKeep drivers Net.SameRegistry) (devices : DevPtr pool → NovaNetDevice pool)
    (ops : List (RegistryOp pool))
    (hedits : (registryMachine drivers).Along ProperEdit (some (programStart devices)) ops) :
    (registryMachine drivers).Always (fun st => ∃ net devs, st = some net ∧ RegistryMeets drivers net devs)
      (some (programStart devices)) ops := by
  have hinv : (registryMachine drivers).Always (fun st => ∃ net devs, st = some net ∧ RegistryIs net devs)
      (some (programStart devices)) ops := by
    refine Machine.always_of_along ?_ ⟨_, [], rfl, .of_empty rfl⟩ hedits
    rintro _ op ⟨net, devs, rfl, h⟩ hop
    obtain ⟨answer, net', devs', hstep, h', _⟩ := h.next hopens hop
    exact ⟨net', devs', Machine.ofPartial_next hstep, h'⟩
  refine hinv.mono ?_
  rintro _ ⟨net, devs, rfl, h⟩
  exact ⟨net, devs, rfl, h.meets hopens⟩

/-- Drivers with the hooks of the NIC stub. -/
def stubDrivers : Nat → NovaNetDeviceOps pool := fun _ => nicOps

theorem opensKeep_stubDrivers {R : Net pool → Net pool → Prop}
    (hR : ∀ net net' : Net pool, net.SameStack net' → R net net') : OpensKeep stubDrivers R := by
  intro n hook hhook net dev
  cases hhook
  exact ⟨0, _, rfl, hR _ _ (.setDevice rfl)⟩

def card (name : String) : NovaNetDevice pool where
  name := name
  mac := Vector.replicate 6 0
  mtu := 1500
  flags := novaIffUp
  ops := some (.other 0)
  stats := ⟨0, 0, 0, 0⟩
  next := none

def twoCards : DevPtr 2 → NovaNetDevice 2
  | .other n => card (if n = 0 then "eth0" else "eth1")
  | dev => (zeroNet 2).devices dev

/-- A device is registered again after it was taken out and written to, and once more after the registry was dropped. -/
def cardsComeAndGo : List (RegistryOp 2) :=
  [.register (some (.other 0)), .register (some (.other 1)), .unregister (some (.other 0)),
    .edit 0 { card "eth0" with mtu := 9000 }, .register (some (.other 0)), .init, .register (some (.other 0)), .shutdown]

theorem registry_well_formed_cards :
    (registryMachine stubDrivers).Always (fun st => ∃ net devs, st = some net ∧ RegistryMeets stubDrivers net devs)
      (some (programStart twoCards)) cardsComeAndGo := by
  refine registry_well_formed (opensKeep_stubDrivers fun _ _ hsame => hsame.sameRegistry) twoCards cardsComeAndGo ?_
  have hcard : ((registryMachine stubDrivers).exec (some (programStart twoCards)) (cardsComeAndGo.take 3)).map
      (fun net => (net.next (.other 0), net.name (.other 0))) = some (none, "eth0") := by decide +kernel
  refine ⟨fun _ _ => trivial, fun _ _ => trivial, fun _ _ => trivial, fun net hnet => ?_, fun _ _ => trivial,
    fun _ _ => trivial, fun _ _ => trivial, fun _ _ => trivial, trivial⟩
  have hnet' : (registryMachine stubDrivers).exec (some (programStart twoCards)) (cardsComeAndGo.take 3) = some net :=
    hnet
  rw [hnet', Option.map_some, Option.some.injEq, Prod.mk.injEq] at hcard
  exact ⟨hcard.1.symm, fun _ => hcard.2.symm⟩

end NovaOs.Network
