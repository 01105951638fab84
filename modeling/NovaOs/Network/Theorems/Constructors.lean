import NovaOs.Network.Theorems.Registry
import Mathlib.Data.List.Find

/-!
# Calling a device constructor again

`nova_loopback_init` and `nova_nic_stub_init` reset their device object before they ask the registry to take it. When
the object is registered at that moment, the call is refused and the reset stays: the chain ends at the object, and
its counters and flags are gone.
-/

namespace NovaOs.Network

open Lib

variable {pool : Nat} {drivers : Nat → NovaNetDeviceOps pool} {net net' : Net pool} {devs : List (DevPtr pool)}

/-! ## What a constructor may do -/

/-- Nothing of the registry and of the registered devices was lost. -/
structure LeavesRegistry (net net' : Net pool) : Prop where
  chain : ∀ devs, Linked net.next net.registry devs → Linked net'.next net'.registry devs
  find : ∀ name, novaNetdevFind net' name = novaNetdevFind net name
  stats : ∀ dev, net.Registered dev → (net'.devices dev).stats = (net.devices dev).stats
  flags : ∀ dev, net.Registered dev → (net'.devices dev).flags = (net.devices dev).flags

/-- A constructor of `dev` fails and leaves the registry, or it puts `dev` in front of the devices registered. -/
def SafeConstruction (net : Net pool) (dev : DevPtr pool) (call : Option (Int × Net pool)) : Prop :=
  ∃ result net', call = some (result, net') ∧
    (result = -1 ∧ LeavesRegistry net net' ∨
      result = 0 ∧ ∀ devs, Linked net.next net.registry devs → Linked net'.next net'.registry (dev :: devs))

/-- The object of the device is not registered, or it is the last of the chain and as a constructor makes it. -/
def Harmless (net : Net pool) (dev : DevPtr pool) (flags : UInt32) : Prop :=
  net.Registered dev →
    net.next dev = none ∧ (net.devices dev).stats = ⟨0, 0, 0, 0⟩ ∧ (net.devices dev).flags = flags

/-! ## One constructor -/

theorem Net.next_setDevice {dev : DevPtr pool} {device} :
    (net.setDevice dev device).next = Function.update net.next dev device.next := by
  funext d
  rw [Net.next, Net.devices_setDevice, Function.update_apply]
  split <;> rfl

theorem Net.name_setDevice {dev : DevPtr pool} {device} (hname : device.name = net.name dev) :
    (net.setDevice dev device).name = net.name := by
  funext d
  rw [Net.name, Net.devices_setDevice]
  split
  · next he => rw [he, hname]
  · rfl

theorem RegistryIs.setDevice (h : RegistryIs net devs) {dev : DevPtr pool} (hdev : dev ∉ devs) (device) :
    RegistryIs (net.setDevice dev device) devs ∧ LeavesRegistry net (net.setDevice dev device) := by
  have hsame : ∀ d ∈ devs, (net.setDevice dev device).devices d = net.devices d := fun d hd => by
    rw [Net.devices_setDevice, if_neg]
    rintro rfl
    exact hdev hd
  have hnew : RegistryIs (net.setDevice dev device) devs := by
    refine ⟨h.linked.congr fun d hd => by rw [Net.next, hsame d hd], ?_⟩
    rw [List.map_congr_left fun d hd => by rw [Net.name, hsame d hd]]
    exact h.names
  refine ⟨hnew, fun devs' h' => ?_, fun name? => ?_, fun d hd => ?_, fun d hd => ?_⟩
  · rw [h'.unique h.linked]
    exact hnew.linked
  · cases name? with
    | none => rfl
    | some name =>
        rw [novaNetdevFind, novaNetdevFind, hnew.search, h.search]
        exact congrArg some (List.find?_congr fun d hd => by rw [Net.name, hsame d hd])
  · rw [hsame d (h.registered_iff.mp hd)]
  · rw [hsame d (h.registered_iff.mp hd)]

theorem RegistryIs.construct_new (h : RegistryIs net devs) (hopens : OpensKeep drivers Net.SameRegistry)
    {dev : DevPtr pool} (hdev : dev ∉ devs) (device : NovaNetDevice pool) :
    SafeConstruction net dev (novaNetdevRegister drivers (net.setDevice dev device) (some dev)) := by
  obtain ⟨hnew, hleaves⟩ := h.setDevice hdev device
  rcases hnew.register hopens ignoresStack_sameRegistry (some dev) with
    ⟨_, hregister⟩ | ⟨_, net', hsome, haccepts, hregister, hsame⟩
  · exact ⟨-1, _, hregister, .inl ⟨rfl, hleaves⟩⟩
  · cases hsome
    refine ⟨0, net', hregister, .inr ⟨rfl, fun devs' h' => ?_⟩⟩
    rw [h'.unique h.linked]
    exact ((hnew.link haccepts).same hsame).linked

/-- The constructor of an object that is registered is refused, and the chain ends at the object. -/
theorem RegistryIs.construct_again (drivers : Nat → NovaNetDeviceOps pool) {ks rest : List (DevPtr pool)} {dev : DevPtr pool}
    (h : RegistryIs net (ks ++ dev :: rest)) {device : NovaNetDevice pool} (hname : device.name = net.name dev)
    (hnext : device.next = none) :
    RegistryIs (net.setDevice dev device) (ks ++ [dev]) ∧
      novaNetdevRegister drivers (net.setDevice dev device) (some dev) = some (-1, net.setDevice dev device) := by
  have hks : dev ∉ ks := not_mem_of_nodup h.nodup
  have hcut : RegistryIs (net.setDevice dev device) (ks ++ [dev]) := by
    constructor
    · rw [Net.next_setDevice, hnext]
      exact h.linked.cut hks
    · rw [Net.name_setDevice hname]
      refine h.names.sublist (List.Sublist.map _ ?_)
      simp
  refine ⟨hcut, ?_⟩
  rcases hcut.register_cases drivers (some dev) with ⟨_, hregister⟩ | ⟨_, hsome, haccepts, _⟩
  · exact hregister
  · cases hsome
    exact absurd rfl (haccepts.2 dev (by simp))

/-- Writing to an object what it holds of its chain, counters and flags leaves the registry. -/
theorem LeavesRegistry.setDevice {dev : DevPtr pool} {device : NovaNetDevice pool} (hname : device.name = net.name dev)
    (hnext : device.next = net.next dev) (hstats : device.stats = (net.devices dev).stats)
    (hflags : device.flags = (net.devices dev).flags) : LeavesRegistry net (net.setDevice dev device) := by
  have hnexts : (net.setDevice dev device).next = net.next := by
    rw [Net.next_setDevice, hnext, Function.update_eq_self]
  have hsearch : ∀ name, (net.setDevice dev device).searchName name = net.searchName name := fun name => by
    rw [Net.searchName, Net.searchName]
    exact congrArg₂ (fun next name' => Lib.search next (fun d => name' d = name) _ net.registry) hnexts
      (Net.name_setDevice hname)
  refine ⟨fun devs h => ?_, fun name? => ?_, fun d _ => ?_, fun d _ => ?_⟩
  · rw [hnexts]
    exact h
  · cases name? with
    | none => rfl
    | some name => exact hsearch name
  · rw [Net.devices_setDevice]
    split
    · next he => rw [he, hstats]
    · rfl
  · rw [Net.devices_setDevice]
    split
    · next he => rw [he, hflags]
    · rfl

theorem RegistryIs.construct_iff (h : RegistryIs net devs) (hopens : OpensKeep drivers Net.SameRegistry)
    {dev : DevPtr pool} {device : NovaNetDevice pool} (hname : dev ∈ devs → device.name = net.name dev)
    (hnext : device.next = none) (hstats : device.stats = ⟨0, 0, 0, 0⟩) :
    SafeConstruction net dev (novaNetdevRegister drivers (net.setDevice dev device) (some dev)) ↔
      Harmless net dev device.flags := by
  by_cases hdev : dev ∈ devs
  · have hregistered : net.Registered dev := h.registered_iff.mpr hdev
    have hdevice : (net.setDevice dev device).devices dev = device := by
      rw [Net.devices_setDevice, if_pos rfl]
    obtain ⟨ks, rest, rfl⟩ := List.append_of_mem hdev
    obtain ⟨hcut, hregister⟩ := h.construct_again drivers (hname hdev) hnext
    constructor
    · rintro ⟨result, net', hcall, ⟨_, hleaves⟩ | ⟨rfl, _⟩⟩ _
      · rw [hregister, Option.some.injEq, Prod.mk.injEq] at hcall
        rw [← hcall.2] at hleaves
        have hchain := (hleaves.chain _ h.linked).unique hcut.linked
        have hrest : rest = [] := by simpa using hchain
        have hend := h.linked.append_right
        rw [hrest] at hend
        have hstats' := hleaves.stats dev hregistered
        have hflags' := hleaves.flags dev hregistered
        rw [hdevice] at hstats' hflags'
        exact ⟨hend, by rw [← hstats', hstats], hflags'.symm⟩
      · rw [hregister] at hcall
        simp at hcall
    · intro hharmless
      obtain ⟨hend, hstats', hflags'⟩ := hharmless hregistered
      exact ⟨-1, _, hregister, .inl ⟨rfl, .setDevice (hname hdev) (by rw [hnext, hend]) (by rw [hstats, hstats'])
        hflags'.symm⟩⟩
  · exact iff_of_true (h.construct_new hopens hdev device) fun hregistered => absurd (h.registered_iff.mp hregistered) hdev

theorem RegistryIs.construct (h : RegistryIs net devs) (hopens : OpensKeep drivers Net.SameRegistry)
    {dev : DevPtr pool} {device : NovaNetDevice pool} (hname : dev ∈ devs → device.name = net.name dev)
    (hnext : device.next = none) :
    ∃ result net' devs', novaNetdevRegister drivers (net.setDevice dev device) (some dev) = some (result, net') ∧
      RegistryIs net' devs' ∧ (∀ d ∈ devs', d = dev ∨ d ∈ devs) ∧
      ∀ d, net'.name d = if d = dev then device.name else net.name d := by
  have hnames : ∀ d, (net.setDevice dev device).name d = if d = dev then device.name else net.name d := fun d => by
    rw [Net.name, Net.devices_setDevice]
    split <;> rfl
  by_cases hdev : dev ∈ devs
  · obtain ⟨ks, rest, rfl⟩ := List.append_of_mem hdev
    obtain ⟨hcut, hregister⟩ := h.construct_again drivers (hname hdev) hnext
    refine ⟨-1, _, _, hregister, hcut, fun d hd => ?_, hnames⟩
    cases List.mem_append.mp hd with
    | inl hks => exact .inr (List.mem_append_left _ hks)
    | inr he => exact .inl (List.mem_singleton.mp he)
  · have hnew := (h.setDevice hdev device).1
    rcases hnew.register hopens ignoresStack_sameRegistry (some dev) with
      ⟨_, hregister⟩ | ⟨_, net', hsome, haccepts, hregister, hsame⟩
    · exact ⟨-1, _, devs, hregister, hnew, fun d hd => .inr hd, hnames⟩
    · cases hsome
      refine ⟨0, net', _, hregister, (hnew.link haccepts).same hsame, fun d hd => List.mem_cons.mp hd, fun d => ?_⟩
      rw [hsame.name, ((net.setDevice dev device).relinked_link dev).name, hnames]

/-! ## Whole runs -/

/-- Registered devices have a name, and the static objects have no other name than their own. -/
structure BootInv (net : Net pool) (devs : List (DevPtr pool)) : Prop where
  registry : RegistryIs net devs
  named : ∀ dev ∈ devs, net.name dev ≠ ""
  lo : net.name .lo = "" ∨ net.name .lo = "lo"
  nic : net.name .nic = "" ∨ net.name .nic = "nic0"

theorem BootInv.start (others : Fin pool → NovaNetDevice pool) : BootInv (bootStart others) [] where
  registry := .of_empty rfl
  named := by simp
  lo := .inl rfl
  nic := .inl rfl

theorem BootInv.lo_name (h : BootInv net devs) (hdev : .lo ∈ devs) : "lo" = net.name .lo :=
  (h.lo.resolve_left (h.named .lo hdev)).symm

theorem BootInv.nic_name (h : BootInv net devs) (hdev : .nic ∈ devs) : "nic0" = net.name .nic :=
  (h.nic.resolve_left (h.named .nic hdev)).symm

/-- What a constructor makes of the registry, when it gives its object the name that is its own. -/
theorem BootInv.constructed (h : BootInv net devs) {dev : DevPtr pool} {name : String} {devs'} (hname : name ≠ "")
    (hlo : dev = .lo → name = "lo") (hnic : dev = .nic → name = "nic0") (hregistry : RegistryIs net' devs')
    (hmem : ∀ d ∈ devs', d = dev ∨ d ∈ devs) (hnames : ∀ d, net'.name d = if d = dev then name else net.name d) :
    BootInv net' devs' where
  registry := hregistry
  named d hd := by
    rw [hnames]
    split
    · exact hname
    · next hne => exact h.named d ((hmem d hd).resolve_left hne)
  lo := by
    rw [hnames]
    split
    · next he => exact .inr (hlo he.symm)
    · exact h.lo
  nic := by
    rw [hnames]
    split
    · next he => exact .inr (hnic he.symm)
    · exact h.nic

/-- The edits of a boot sequence are proper. -/
def ProperBoot (st : Option (Net pool)) : BootOp pool → Prop
  | .registry op => ProperEdit st op
  | _ => True

theorem BootInv.next (h : BootInv net devs) (hopens : OpensKeep drivers Net.SameRegistry) {op : BootOp pool}
    (hop : ProperBoot (some net) op) :
    ∃ answer net' devs', bootStep drivers net op = some (answer, net') ∧ BootInv net' devs' := by
  cases op with
  | registry op =>
      obtain ⟨answer, net', devs', hstep, hregistry, hadded, hnames⟩ := h.registry.next hopens hop
      refine ⟨answer, net', devs', hstep, hregistry, fun dev hdev => ?_, ?_, ?_⟩
      · rw [hnames dev (.inl hdev)]
        cases hadded dev hdev with
        | inl hold => exact h.named dev hold
        | inr hnamed => exact hnamed
      · rw [hnames .lo (.inr (by simp))]
        exact h.lo
      · rw [hnames .nic (.inr (by simp))]
        exact h.nic
  | loopbackInit =>
      obtain ⟨result, net', devs', hcall, hregistry, hmem, hnames⟩ :
          ∃ result net' devs', novaLoopbackInit drivers net = some (result, net') ∧ RegistryIs net' devs' ∧
            (∀ d ∈ devs', d = .lo ∨ d ∈ devs) ∧ ∀ d, net'.name d = if d = .lo then "lo" else net.name d :=
        h.registry.construct hopens h.lo_name rfl
      exact ⟨.int result, net', devs', by rw [bootStep, hcall]; rfl,
        h.constructed (by decide) (fun _ => rfl) (by simp) hregistry hmem hnames⟩
  | nicStubInit =>
      obtain ⟨result, net', devs', hcall, hregistry, hmem, hnames⟩ :
          ∃ result net' devs', novaNicStubInit drivers net = some (result, net') ∧ RegistryIs net' devs' ∧
            (∀ d ∈ devs', d = .nic ∨ d ∈ devs) ∧ ∀ d, net'.name d = if d = .nic then "nic0" else net.name d :=
        h.registry.construct hopens h.nic_name rfl
      exact ⟨.int result, net', devs', by rw [bootStep, hcall]; rfl,
        h.constructed (by decide) (by simp) (fun _ => rfl) hregistry hmem hnames⟩

/-- In every state of every boot sequence, a constructor may be called again exactly when its object is not
registered, or it is the last of the chain and as the constructor makes it. -/
theorem constructors_safe_iff_harmless (hopens : OpensKeep drivers Net.SameRegistry)
    (others : Fin pool → NovaNetDevice pool) (ops : List (BootOp pool))
    (hedits : (bootMachine drivers).Along ProperBoot (some (bootStart others)) ops) :
    (bootMachine drivers).Always
      (fun st => ∃ net, st = some net ∧
        (SafeConstruction net .lo (novaLoopbackInit drivers net) ↔ Harmless net .lo (novaIffLoopback ||| novaIffUp)) ∧
        (SafeConstruction net .nic (novaNicStubInit drivers net) ↔ Harmless net .nic (novaIffUp ||| novaIffRunning)))
      (some (bootStart others)) ops := by
  have hinv : (bootMachine drivers).Always (fun st => ∃ net devs, st = some net ∧ BootInv net devs)
      (some (bootStart others)) ops := by
    refine Machine.always_of_along ?_ ⟨_, [], rfl, .start others⟩ hedits
    rintro _ op ⟨net, devs, rfl, h⟩ hop
    obtain ⟨answer, net', devs', hstep, h'⟩ := h.next hopens hop
    exact ⟨net', devs', Machine.ofPartial_next hstep, h'⟩
  refine hinv.mono ?_
  rintro _ ⟨net, devs, rfl, h⟩
  refine ⟨net, rfl, ?_, ?_⟩
  · exact h.registry.construct_iff hopens h.lo_name rfl rfl
  · exact h.registry.construct_iff hopens h.nic_name rfl rfl

theorem constructors_safe_iff_harmless_card :
    (bootMachine stubDrivers).Always
      (fun st => ∃ net, st = some net ∧
        (SafeConstruction net .lo (novaLoopbackInit stubDrivers net) ↔
          Harmless net .lo (novaIffLoopback ||| novaIffUp)) ∧
        (SafeConstruction net .nic (novaNicStubInit stubDrivers net) ↔
          Harmless net .nic (novaIffUp ||| novaIffRunning)))
      (some (bootStart fun _ : Fin 1 => card "eth0"))
      [.registry .init, .loopbackInit, .registry (.register (some (.other 0))), .nicStubInit, .loopbackInit] := by
  refine constructors_safe_iff_harmless (opensKeep_stubDrivers fun _ _ hsame => hsame.sameRegistry) _ _ ?_
  exact ⟨fun _ _ => trivial, trivial, fun _ _ => trivial, trivial, trivial, trivial⟩

def noCards : Fin 0 → NovaNetDevice 0 := nofun

/-- After the usual boot sequence, the second call of `nova_nic_stub_init` takes the loopback out of the registry. -/
theorem nic_stub_detaches_loopback :
    ∃ net : Net 0, (bootMachine noDrivers).exec (some (bootStart noCards)) [.registry .init, .loopbackInit, .nicStubInit] =
        some net ∧
      ¬ SafeConstruction net .nic (novaNicStubInit noDrivers net) := by
  obtain ⟨net, hnet⟩ : ∃ net : Net 0,
      (bootMachine noDrivers).exec (some (bootStart noCards)) [.registry .init, .loopbackInit, .nicStubInit] = some net := by
    rw [← Option.isSome_iff_exists]
    decide +kernel
  have hbefore : ((bootMachine noDrivers).exec (some (bootStart noCards))
      [.registry .init, .loopbackInit, .nicStubInit]).map
        (fun net => (net.registry, net.next .nic, net.next .lo)) = some (some .nic, some .lo, none) := by
    decide +kernel
  have hafter : ((bootMachine noDrivers).exec (some (bootStart noCards))
      [.registry .init, .loopbackInit, .nicStubInit]).bind (fun net =>
        (novaNicStubInit noDrivers net).map fun r => (r.1, r.2.next .nic)) = some (-1, none) := by
    decide +kernel
  rw [hnet, Option.map_some, Option.some.injEq, Prod.mk.injEq, Prod.mk.injEq] at hbefore
  rw [hnet, Option.bind_some] at hafter
  refine ⟨net, hnet, ?_⟩
  rintro ⟨result, net', hcall, hcases⟩
  rw [hcall, Option.map_some, Option.some.injEq, Prod.mk.injEq] at hafter
  obtain ⟨rfl, hend⟩ := hafter
  cases hcases with
  | inl hleaves =>
      have hchain := hleaves.2.chain [.nic, .lo] hbefore
      rw [Linked, Linked, hend] at hchain
      cases hchain.2.1
  | inr hadds => cases hadds.1

end NovaOs.Network
