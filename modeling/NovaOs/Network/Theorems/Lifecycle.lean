import NovaOs.Network.Theorems.Registry

/-!
# Opening and stopping devices

`nova_netdev_register` opens a device and does not look at what that returns; `nova_netdev_unregister` and
`nova_network_shutdown` let devices go and stop none. Registration and the two hooks then only agree as long as every
open succeeds and no device leaves.
-/

namespace NovaOs.Network

open Lib

variable {pool : Nat} (drivers : Nat → NovaNetDeviceOps pool) {net net' : Net pool} {devs : List (DevPtr pool)}

/-! ## The hooks that were called -/

/-- The last call of a hook of a device. -/
def Net.lastHook (net : Net pool) (dev : DevPtr pool) : Option (HookCall pool) :=
  net.hookCalls.find? fun call => call.dev = dev

theorem Net.lastHook_cons {call : HookCall pool} (h : net'.hookCalls = call :: net.hookCalls) (dev) :
    net'.lastHook dev = if call.dev = dev then some call else net.lastHook dev := by
  rw [lastHook, lastHook, h, List.find?_cons]
  by_cases he : call.dev = dev <;> simp [he]

theorem Net.Relinked.lastHook (h : net.Relinked net') (dev) : net'.lastHook dev = net.lastHook dev := by
  rw [Net.lastHook, Net.lastHook, h.hookCalls]

/-- The devices that are registered now or were so before. -/
def meetDevices (st : Option (Net pool)) (_ : RegistryOp pool) (_ : Option (RegistryAnswer pool))
    (met : DevPtr pool → Prop) : DevPtr pool → Prop :=
  fun dev => met dev ∨ ∃ net, st = some net ∧ net.Registered dev

/-! ## What registration promises -/

/-- A device is registered exactly when the last call of its hooks was an open that returned 0, and a device that has
left was stopped since it was opened. Then `lo` and `nic0` do not run. -/
structure LifecycleMeets (net : Net pool) (met : DevPtr pool → Prop) : Prop where
  paired : ∀ dev, net.Registered dev ↔ net.lastHook dev = some ⟨dev, .openDev, 0⟩
  stopped : ∀ dev, met dev → ¬ net.Registered dev → ∃ result, net.lastHook dev = some ⟨dev, .stop, result⟩
  running : ∀ dev, dev = .lo ∨ dev = .nic → met dev → ¬ net.Registered dev →
    (net.devices dev).flags &&& novaIffRunning = 0

/-- A registration that reports success did not call an open hook that failed. -/
def Honest (st : Option (Net pool)) (op : RegistryOp pool) : Prop :=
  ∀ net net' dev calls, st = some net → op = .register (some dev) →
    registryStep drivers net op = some (.int 0, net') → net'.hookCalls = calls ++ net.hookCalls →
      ∀ result, ⟨dev, .openDev, result⟩ ∈ calls → result = 0

/-- A device that would be taken into the registry. -/
def Net.Welcomes (net : Net pool) (dev : DevPtr pool) : Prop :=
  net.name dev ≠ "" ∧ ∀ d, net.Registered d → net.name d ≠ net.name dev

/-- The open hook of a device that is registered succeeds, and no registered device leaves. -/
def Pairs (st : Option (Net pool)) (op : RegistryOp pool) : Prop :=
  ∀ net, st = some net → match op with
    | .register (some dev) => net.Welcomes dev →
        ∀ hook result net', net.openHook drivers dev = some hook → hook (net.link dev) dev = some (result, net') →
          result = 0
    | .unregister (some dev) => ¬ net.Registered dev
    | .shutdown => ∀ dev, ¬ net.Registered dev
    | _ => True

/-- The calls that a device's life consists of. -/
def RegistryOp.IsLifecycle : RegistryOp pool → Prop
  | .register _ | .unregister _ | .shutdown => True
  | _ => False

/-- Both hooks are there. -/
def NovaNetDevice.Hooked (device : NovaNetDevice pool) : Prop :=
  ∃ ops, device.ops = some ops ∧ (opsOf drivers ops).openDev.isSome ∧ (opsOf drivers ops).stop.isSome

/-- The registry and the tables of hooks are the same. -/
structure Net.SameWiring (net net' : Net pool) : Prop extends net.SameRegistry net' where
  ops : ∀ dev, (net'.devices dev).ops = (net.devices dev).ops

theorem Net.SameStack.sameWiring (h : net.SameStack net') : net.SameWiring net' := ⟨h.sameRegistry, h.ops⟩

theorem ignoresStack_sameWiring : IgnoresStack (@Net.SameWiring pool) where
  refl net := (Net.SameStack.refl net).sameWiring
  stack _ _ _ h h' := ⟨h.toSameRegistry.trans h'.sameRegistry, fun dev => (h'.ops dev).trans (h.ops dev)⟩

/-! ## One call -/

variable {drivers} {met : DevPtr pool → Prop}

theorem RegistryIs.welcomes_iff (h : RegistryIs net devs) {dev : DevPtr pool} :
    net.Welcomes dev ↔ net.Accepts devs dev := by
  simp only [Net.Welcomes, Net.Accepts, h.registered_iff]

/-- The hooks that were called last are the successful opens of the registered devices, and no device has left. -/
structure LifeInv (drivers : Nat → NovaNetDeviceOps pool) (net : Net pool) (met : DevPtr pool → Prop)
    (devs : List (DevPtr pool)) : Prop where
  registry : RegistryIs net devs
  hooked : ∀ dev, (net.devices dev).Hooked drivers
  last : ∀ dev, net.lastHook dev = if dev ∈ devs then some ⟨dev, .openDev, 0⟩ else none
  stays : ∀ dev, met dev → dev ∈ devs

theorem LifeInv.meets (h : LifeInv drivers net met devs) : LifecycleMeets net met where
  paired dev := by
    rw [h.registry.registered_iff, h.last]
    split
    · next hdev => exact iff_of_true hdev rfl
    · next hdev => exact iff_of_false hdev (by simp)
  stopped dev hmet hgone := absurd (h.registry.registered_iff.mpr (h.stays dev hmet)) hgone
  running dev _ hmet hgone := absurd (h.registry.registered_iff.mpr (h.stays dev hmet)) hgone

theorem LifeInv.start {devices : DevPtr pool → NovaNetDevice pool} (hhooked : ∀ dev, (devices dev).Hooked drivers) :
    LifeInv drivers (programStart devices) (fun _ => False) [] where
  registry := .of_empty rfl
  hooked := hhooked
  last _ := rfl
  stays _ hmet := hmet.elim

theorem LifeInv.mem_of_met (h : LifeInv drivers net met devs) (op answer) {dev}
    (hmet : meetDevices (some net) op answer met dev) : dev ∈ devs := by
  rcases hmet with hbefore | ⟨net₀, hnet, hregistered⟩
  · exact h.stays dev hbefore
  · cases hnet
    exact h.registry.registered_iff.mp hregistered

theorem LifeInv.openHook (h : LifeInv drivers net met devs) (dev) : ∃ hook, net.openHook drivers dev = some hook := by
  obtain ⟨ops, hops, hopen, _⟩ := h.hooked dev
  rw [Net.openHook, hops, Option.bind_some]
  exact Option.isSome_iff_exists.mp hopen

theorem hooked_congr {device device' : NovaNetDevice pool} (hops : device'.ops = device.ops)
    (h : device.Hooked drivers) : device'.Hooked drivers := by
  rwa [NovaNetDevice.Hooked, hops]

/-- What a registration does: nothing, or it links the device and calls its open hook, whatever that returns. -/
theorem LifeInv.register (h : LifeInv drivers net met devs) (hopens : OpensKeep drivers Net.SameWiring)
    (dev? : Option (DevPtr pool)) :
    ((∀ dev, dev? = some dev → ¬ net.Welcomes dev) ∧
      registryStep drivers net (.register dev?) = some (.int (-1), net)) ∨
    (∃ dev hook result net', dev? = some dev ∧ net.Welcomes dev ∧ net.openHook drivers dev = some hook ∧
      hook (net.link dev) dev = some (result, net') ∧ (net.link dev).SameWiring net' ∧
      net'.hookCalls = ⟨dev, .openDev, result⟩ :: net.hookCalls ∧
      registryStep drivers net (.register dev?) = some (.int 0, net')) := by
  rcases h.registry.register_cases drivers dev? with ⟨hrefused, hregister⟩ | ⟨dev, rfl, haccepts, hregister⟩
  · refine .inl ⟨fun dev hdev => h.registry.welcomes_iff.not.mpr (hrefused dev hdev), ?_⟩
    rw [registryStep, hregister]
    rfl
  · obtain ⟨hook, hhook⟩ := h.openHook dev
    obtain ⟨result, net', hopen, hsame, hcalls⟩ := hopens.openHook ignoresStack_sameWiring hhook (net.link dev) dev
    refine .inr ⟨dev, hook, result, net', rfl, h.registry.welcomes_iff.mpr haccepts, hhook, hopen, hsame, ?_, ?_⟩
    · rw [hcalls, (net.relinked_link dev).hookCalls]
    · rw [registryStep, hregister, hhook]
      simp only [hopen, Option.map_some]

/-- What an unregistration does: nothing, or the device leaves the chain, and no hook is called. -/
theorem LifeInv.unregister (h : LifeInv drivers net met devs) (dev? : Option (DevPtr pool)) :
    ((∀ dev, dev? = some dev → ¬ net.Registered dev) ∧
      registryStep drivers net (.unregister dev?) = some (.int (-1), net)) ∨
    (∃ dev net', dev? = some dev ∧ net.Registered dev ∧ RegistryIs net' (devs.erase dev) ∧ net.Relinked net' ∧
      registryStep drivers net (.unregister dev?) = some (.int 0, net')) := by
  rcases h.registry.unregister_cases dev? with ⟨hrefused, hcall⟩ | ⟨dev, net', rfl, hdev, hcall, herase, hrelinked, _⟩
  · refine .inl ⟨fun dev hsome => h.registry.registered_iff.not.mpr (hrefused dev hsome), ?_⟩
    rw [registryStep, hcall]
    rfl
  · refine .inr ⟨dev, net', rfl, h.registry.registered_iff.mpr hdev, herase, hrelinked, ?_⟩
    rw [registryStep, hcall]
    rfl

theorem LifeInv.shutdown (h : LifeInv drivers net met devs) :
    ∃ net', net'.registry = none ∧ net.Relinked net' ∧
      registryStep drivers net .shutdown = some (.int 0, net') := by
  obtain ⟨net', hcall, hregistry, _, hrelinked⟩ := h.registry.exists_shutdown
  refine ⟨net', hregistry, hrelinked, ?_⟩
  rw [registryStep, hcall]
  rfl

theorem LifeInv.opened (h : LifeInv drivers net met devs) {dev : DevPtr pool} (hwelcomes : net.Welcomes dev)
    (hsame : (net.link dev).SameWiring net') (hcalls : net'.hookCalls = ⟨dev, .openDev, 0⟩ :: net.hookCalls) (op answer) :
    LifeInv drivers net' (meetDevices (some net) op answer met) (dev :: devs) where
  registry := (h.registry.link (h.registry.welcomes_iff.mp hwelcomes)).same hsame.toSameRegistry
  hooked d := hooked_congr ((hsame.ops d).trans ((net.relinked_link dev).ops d)) (h.hooked d)
  last d := by
    rw [Net.lastHook_cons hcalls, h.last]
    by_cases he : d = dev
    · simp [he]
    · simp [he, Ne.symm he]
  stays d hmet := List.mem_cons_of_mem _ (h.mem_of_met op answer hmet)

theorem LifeInv.next (h : LifeInv drivers net met devs) (hopens : OpensKeep drivers Net.SameWiring)
    {op : RegistryOp pool} (hop : op.IsLifecycle) (hpairs : Pairs drivers (some net) op) :
    ∃ answer net' devs', registryStep drivers net op = some (answer, net') ∧
      LifeInv drivers net' (meetDevices (some net) op (some answer) met) devs' := by
  have hpairs' := hpairs net rfl
  -- A call that does nothing.
  have hidle : ∀ answer, LifeInv drivers net (meetDevices (some net) op (some answer) met) devs := fun answer =>
    ⟨h.registry, h.hooked, h.last, fun _ hmet => h.mem_of_met op _ hmet⟩
  match op, hop with
  | .register dev?, _ =>
      rcases h.register hopens dev? with
        ⟨_, hstep⟩ | ⟨dev, hook, result, net', rfl, hwelcomes, hhook, hopen, hsame, hcalls, hstep⟩
      · exact ⟨_, net, devs, hstep, hidle _⟩
      · have hresult : result = 0 := hpairs' hwelcomes hook result net' hhook hopen
        subst hresult
        exact ⟨_, net', _, hstep, h.opened hwelcomes hsame hcalls _ _⟩
  | .unregister dev?, _ =>
      rcases h.unregister dev? with ⟨_, hstep⟩ | ⟨dev, net', rfl, hdev, _⟩
      · exact ⟨_, net, devs, hstep, hidle _⟩
      · exact absurd hdev hpairs'
  | .shutdown, _ =>
      obtain ⟨net', hregistry, hrelinked, hstep⟩ := h.shutdown
      have hempty : devs = [] :=
        List.eq_nil_iff_forall_not_mem.mpr fun d hd => hpairs' d (h.registry.registered_iff.mpr hd)
      subst hempty
      refine ⟨_, net', [], hstep, .of_empty hregistry, fun d => hooked_congr (hrelinked.ops d) (h.hooked d), fun d => ?_,
        fun _ hmet => h.mem_of_met _ _ hmet⟩
      rw [hrelinked.lastHook]
      exact h.last d

/-- The call of a successful registration is the open that its condition is about. -/
theorem LifeInv.honest (h : LifeInv drivers net met devs) (hopens : OpensKeep drivers Net.SameWiring)
    {op : RegistryOp pool} (hpairs : Pairs drivers (some net) op) : Honest drivers (some net) op := by
  rintro net₀ net₁ dev calls hnet rfl hstep₁ hcalls₁ result hmem
  cases hnet
  rcases h.register hopens (some dev) with
    ⟨_, hstep⟩ | ⟨dev', hook, result', net', hdev, hwelcomes, hhook, hopen, hsame, hcalls, hstep⟩
  · rw [hstep, Option.some.injEq, Prod.mk.injEq] at hstep₁
    exact absurd hstep₁.1 (by simp)
  · cases hdev
    rw [hstep, Option.some.injEq, Prod.mk.injEq] at hstep₁
    obtain ⟨_, rfl⟩ := hstep₁
    have hone : calls = [⟨dev, .openDev, result'⟩] := List.append_cancel_right (hcalls₁.symm.trans hcalls)
    have hresult : result = result' := by simpa [hone] using hmem
    rw [hresult]
    exact hpairs net rfl hwelcomes hook result' net' hhook hopen

/-- A failed open and a device that leaves break the pairing at once. -/
theorem LifeInv.breaks (h : LifeInv drivers net met devs) (hopens : OpensKeep drivers Net.SameWiring)
    {op : RegistryOp pool} (hop : op.IsLifecycle) (hpairs : ¬ Pairs drivers (some net) op) {net'' : Net pool} {met''}
    (hnext : (registryMachine drivers).next (some net) op = some net'') : ¬ LifecycleMeets net'' met'' := by
  intro hmeets
  have hstays : ∀ {answer net'}, registryStep drivers net op = some (answer, net') → net'' = net' := fun hstep =>
    Option.some.inj (hnext.symm.trans (Machine.ofPartial_next hstep))
  -- The last hook that was called on a registered device is a successful open.
  have hopened : ∀ dev, net.Registered dev → net.lastHook dev = some ⟨dev, .openDev, 0⟩ := fun dev hdev => by
    rw [h.last, if_pos (h.registry.registered_iff.mp hdev)]
  match op, hop with
  | .register dev?, _ =>
      rcases h.register hopens dev? with
        ⟨hrefused, _⟩ | ⟨dev, hook, result, net', rfl, hwelcomes, hhook, hopen, hsame, hcalls, hstep⟩
      · refine hpairs fun net₀ hnet₀ => ?_
        cases hnet₀
        cases dev? with
        | none => trivial
        | some dev => exact fun hwelcomes => absurd hwelcomes (hrefused dev rfl)
      · obtain rfl := hstays hstep
        have hregistry := (h.registry.link (h.registry.welcomes_iff.mp hwelcomes)).same hsame.toSameRegistry
        have hlast := (hmeets.paired dev).mp (hregistry.registered_iff.mpr List.mem_cons_self)
        rw [Net.lastHook_cons hcalls, if_pos rfl, Option.some.injEq, HookCall.mk.injEq] at hlast
        refine hpairs fun net₀ hnet₀ => ?_
        cases hnet₀
        intro _ hook' result' net₁ hhook' hopen'
        rw [hhook, Option.some.injEq] at hhook'
        subst hhook'
        rw [hopen, Option.some.injEq, Prod.mk.injEq] at hopen'
        exact hopen'.1.symm.trans hlast.2.2
  | .unregister dev?, _ =>
      rcases h.unregister dev? with ⟨hrefused, _⟩ | ⟨dev, net', rfl, hdev, herase, hrelinked, hstep⟩
      · refine hpairs fun net₀ hnet₀ => ?_
        cases hnet₀
        cases dev? with
        | none => trivial
        | some dev => exact hrefused dev rfl
      · obtain rfl := hstays hstep
        have hlast := (hrelinked.lastHook dev).trans (hopened dev hdev)
        exact h.registry.nodup.not_mem_erase (herase.registered_iff.mp ((hmeets.paired dev).mpr hlast))
  | .shutdown, _ =>
      obtain ⟨net', hregistry, hrelinked, hstep⟩ := h.shutdown
      obtain rfl := hstays hstep
      refine hpairs fun net₀ hnet₀ dev hdev => ?_
      cases hnet₀
      have hlast := (hrelinked.lastHook dev).trans (hopened dev hdev)
      have hgone := (RegistryIs.of_empty hregistry).registered_iff.mp ((hmeets.paired dev).mpr hlast)
      cases hgone

/-! ## Whole runs -/

def LifeKept (drivers : Nat → NovaNetDeviceOps pool) (s : Option (Net pool) × (DevPtr pool → Prop)) : Prop :=
  ∃ net devs, s.1 = some net ∧ LifeInv drivers net s.2 devs

theorem LifeKept.next (hopens : OpensKeep drivers Net.SameWiring) {s : Option (Net pool) × (DevPtr pool → Prop)}
    (h : LifeKept drivers s) {op : RegistryOp pool} (hop : op.IsLifecycle) (hpairs : Pairs drivers s.1 op) :
    LifeKept drivers (((registryMachine drivers).withGhost meetDevices).next s op) := by
  obtain ⟨_, met⟩ := s
  obtain ⟨net, devs, rfl, h⟩ := h
  obtain ⟨answer, net', devs', hstep, h'⟩ := h.next hopens hop hpairs
  rw [registryMachine, Machine.withGhost_ofPartial_next meetDevices hstep]
  exact ⟨net', devs', rfl, h'⟩

/-- In a run of registrations, unregistrations and shutdowns over devices with both hooks, registration and the calls
of the hooks agree in every state, and no registration hides a failed open, exactly when every open of the run
succeeds and no device leaves the registry. -/
theorem lifecycle_paired_iff (hopens : OpensKeep drivers Net.SameWiring) {devices : DevPtr pool → NovaNetDevice pool}
    (hhooked : ∀ dev, (devices dev).Hooked drivers) {ops : List (RegistryOp pool)} (hops : ∀ op ∈ ops, op.IsLifecycle) :
    (((registryMachine drivers).withGhost meetDevices).Always (fun s => ∃ net, s.1 = some net ∧ LifecycleMeets net s.2)
          (some (programStart devices), fun _ => False) ops ∧
        (registryMachine drivers).Along (Honest drivers) (some (programStart devices)) ops) ↔
      (registryMachine drivers).Along (Pairs drivers) (some (programStart devices)) ops := by
  rw [← (registryMachine drivers).withGhost_along meetDevices (P := Honest drivers) (c := fun _ => False),
    ← (registryMachine drivers).withGhost_along meetDevices (P := Pairs drivers) (c := fun _ => False)]
  have hstart : LifeKept drivers (some (programStart devices), fun _ => False) := ⟨_, [], rfl, .start hhooked⟩
  have hlife := Machine.along_of_forall (M := (registryMachine drivers).withGhost meetDevices)
    (s := (some (programStart devices), fun _ => False)) hops
  have hpaired := Machine.always_iff_along_of (Q := fun s => ∃ net, s.1 = some net ∧ LifecycleMeets net s.2)
    (P := fun s => Pairs drivers s.1) ?_ (fun _ _ h => h.next hopens) ?_ hstart hlife
  · refine ⟨fun h => hpaired.mp h.1, fun hpairs => ⟨hpaired.mpr hpairs, ?_⟩⟩
    have hkept := Machine.always_of_along (fun _ _ h hcall => h.next hopens hcall.1 hcall.2) hstart (hlife.and hpairs)
    refine (hkept.along.and hpairs).mono ?_
    rintro ⟨_, met⟩ op ⟨⟨net, devs, rfl, h⟩, hpair⟩
    exact h.honest hopens hpair
  · rintro s ⟨net, devs, hnet, h⟩
    exact ⟨net, hnet, h.meets⟩
  · rintro ⟨_, met⟩ op ⟨net, devs, rfl, h⟩ hop hpairs ⟨net'', hnet'', hmeets⟩
    exact h.breaks hopens hop hpairs hnet'' hmeets

/-- The objects of the built-in devices as their constructors make them, and cards with the hooks of other drivers. -/
def prepared : DevPtr pool → NovaNetDevice pool
  | .lo => { card "lo" with mtu := 65536, flags := novaIffLoopback ||| novaIffUp, ops := some .lo }
  | .nic => { card "nic0" with flags := novaIffUp ||| novaIffRunning, ops := some .nic }
  | .other _ => card "eth0"

theorem prepared_hooked (dev : DevPtr pool) : (prepared dev).Hooked stubDrivers := by
  cases dev with
  | lo => exact ⟨.lo, rfl, rfl, rfl⟩
  | nic => exact ⟨.nic, rfl, rfl, rfl⟩
  | other n => exact ⟨.other 0, rfl, rfl, rfl⟩

def devicesJoin : List (RegistryOp 1) :=
  [.register (some .lo), .unregister none, .register (some (.other 0)), .register (some .lo)]

theorem lifecycle_paired_iff_cards :
    (((registryMachine stubDrivers).withGhost meetDevices).Always
          (fun s => ∃ net, s.1 = some net ∧ LifecycleMeets net s.2)
          (some (programStart prepared), fun _ => False) devicesJoin ∧
        (registryMachine stubDrivers).Along (Honest stubDrivers) (some (programStart prepared)) devicesJoin) ↔
      (registryMachine stubDrivers).Along (Pairs stubDrivers) (some (programStart prepared)) devicesJoin :=
  lifecycle_paired_iff (opensKeep_stubDrivers fun _ _ hsame => hsame.sameWiring) prepared_hooked
    (by simp [devicesJoin, RegistryOp.IsLifecycle])

def loopbackLeaves : List (RegistryOp 0) := [.register (some .lo), .unregister (some .lo)]

/-- The loopback was opened and has left the registry, and it was not stopped. -/
theorem lifecycle_unpaired_after_unregister :
    ¬ ∃ net, (((registryMachine stubDrivers).withGhost meetDevices).exec
          (some (programStart prepared), fun _ => False) loopbackLeaves).1 = some net ∧
        LifecycleMeets net (((registryMachine stubDrivers).withGhost meetDevices).exec
          (some (programStart prepared), fun _ => False) loopbackLeaves).2 := by
  rintro ⟨net, hnet, hmeets⟩
  have hleft : (((registryMachine stubDrivers).withGhost meetDevices).exec
      (some (programStart prepared), fun _ => False) loopbackLeaves).1.map (fun net => (net.registry, net.hookCalls)) =
        some (none, [⟨.lo, .openDev, 0⟩]) := by
    decide +kernel
  rw [hnet, Option.map_some, Option.some.injEq, Prod.mk.injEq] at hleft
  have hlast : net.lastHook .lo = some ⟨.lo, .openDev, 0⟩ := by
    rw [Net.lastHook, hleft.2]
    rfl
  have hregistered := (RegistryIs.of_empty hleft.1).registered_iff.mp ((hmeets.paired .lo).mpr hlast)
  cases hregistered

end NovaOs.Network
