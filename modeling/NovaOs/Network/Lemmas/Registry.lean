import NovaOs.Network.Api
import NovaOs.Network.Lemmas.Stack

/-!
# The registry is a list of devices with different names

`RegistryIs` says which devices the head of the registry leads to. A device outside the chain may point anywhere: a
device is given a pointer again when it is registered.
-/

namespace NovaOs.Network

open Lib

variable {pool : Nat} (drivers : Nat → NovaNetDeviceOps pool) {net net' : Net pool} {devs : List (DevPtr pool)}

/-- The registry is the chain of the devices `devs`, and no two of them have the same name. -/
structure RegistryIs (net : Net pool) (devs : List (DevPtr pool)) : Prop where
  linked : Linked net.next net.registry devs
  names : (devs.map net.name).Nodup

/-- A device is registered when the head of the registry leads to it. -/
def Net.Registered (net : Net pool) (dev : DevPtr pool) : Prop := ∃ devs, Linked net.next net.registry devs ∧ dev ∈ devs

/-! ## What the registry depends on -/

/-- The registry is the same: its head, the pointers and the names. -/
structure Net.SameRegistry (net net' : Net pool) : Prop where
  registry : net'.registry = net.registry
  next : ∀ dev, net'.next dev = net.next dev
  name : ∀ dev, net'.name dev = net.name dev

/-- Only the registry is different: its head and the pointers. -/
structure Net.Relinked (net net' : Net pool) : Prop where
  device : ∀ dev, { net'.devices dev with next := net.next dev } = net.devices dev
  socketTable : net'.socketTable = net.socketTable
  nextSocketFd : net'.nextSocketFd = net.nextSocketFd
  sockets : net'.sockets = net.sockets
  hookCalls : net'.hookCalls = net.hookCalls

theorem Net.SameRegistry.refl (net : Net pool) : net.SameRegistry net := ⟨rfl, fun _ => rfl, fun _ => rfl⟩

theorem Net.SameRegistry.trans {net₁ net₂ net₃ : Net pool} (h : net₁.SameRegistry net₂) (h' : net₂.SameRegistry net₃) :
    net₁.SameRegistry net₃ where
  registry := h'.registry.trans h.registry
  next dev := (h'.next dev).trans (h.next dev)
  name dev := (h'.name dev).trans (h.name dev)

theorem Net.SameRegistry.registered (h : net.SameRegistry net') {dev : DevPtr pool} :
    net'.Registered dev ↔ net.Registered dev := by
  have hnext : net'.next = net.next := funext h.next
  rw [Registered, Registered, h.registry, hnext]

namespace Net.Relinked

theorem refl (net : Net pool) : net.Relinked net := ⟨fun _ => rfl, rfl, rfl, rfl, rfl⟩

theorem trans {net₁ net₂ net₃ : Net pool} (h : net₁.Relinked net₂) (h' : net₂.Relinked net₃) : net₁.Relinked net₃ where
  device dev := by
    rw [← h.device dev, ← h'.device dev]
  socketTable := h'.socketTable.trans h.socketTable
  nextSocketFd := h'.nextSocketFd.trans h.nextSocketFd
  sockets := h'.sockets.trans h.sockets
  hookCalls := h'.hookCalls.trans h.hookCalls

theorem setNext (net : Net pool) (dev next) : net.Relinked (net.setNext dev next) where
  device dev' := by
    rw [Net.setNext, Net.devices_setDevice]
    split
    · next he => rw [he]
    · rfl
  socketTable := rfl
  nextSocketFd := rfl
  sockets := rfl
  hookCalls := rfl

theorem name (h : net.Relinked net') (dev) : net'.name dev = net.name dev := by
  rw [Net.name, Net.name, ← h.device dev]

theorem ops (h : net.Relinked net') (dev) : (net'.devices dev).ops = (net.devices dev).ops := by
  rw [← h.device dev]

end Net.Relinked

theorem Net.next_setNext (dev next) : (net.setNext dev next).next = Function.update net.next dev next := by
  funext dev'
  rw [Net.next, Net.setNext, Net.devices_setDevice, Function.update_apply]
  split <;> rfl

/-! ## The chain -/

namespace RegistryIs

theorem nodup (h : RegistryIs net devs) : devs.Nodup := h.names.of_map

theorem registered_iff (h : RegistryIs net devs) {dev : DevPtr pool} : net.Registered dev ↔ dev ∈ devs := by
  constructor
  · rintro ⟨devs', hlinked, hdev⟩
    rwa [h.linked.unique hlinked]
  · exact fun hdev => ⟨devs, h.linked, hdev⟩

theorem registered_head (h : RegistryIs net devs) {dev : DevPtr pool} (hhead : net.registry = some dev) :
    net.Registered dev := by
  cases devs with
  | nil => exact absurd (hhead.symm.trans h.linked) (by simp)
  | cons d ds =>
      have hd : d = dev := Option.some.inj (h.linked.1.symm.trans hhead)
      rw [h.registered_iff, hd]
      exact List.mem_cons_self

theorem of_empty (h : net.registry = none) : RegistryIs net [] := ⟨h, List.nodup_nil⟩

theorem same (h : RegistryIs net devs) (hsame : net.SameRegistry net') : RegistryIs net' devs where
  linked := by
    rw [hsame.registry]
    exact h.linked.congr fun dev _ => hsame.next dev
  names := by
    rw [show net'.name = net.name from funext hsame.name]
    exact h.names

theorem cons (h : RegistryIs net devs) {dev : DevPtr pool} (hname : ∀ d ∈ devs, net.name d ≠ net.name dev)
    (hrelinked : net.Relinked net') (hregistry : net'.registry = some dev)
    (hnext : net'.next = Function.update net.next dev net.registry) : RegistryIs net' (dev :: devs) where
  linked := by
    refine ⟨hregistry, ?_⟩
    rw [hnext, Function.update_self]
    refine h.linked.congr fun d hd => Function.update_of_ne ?_ _ _
    rintro rfl
    exact hname d hd rfl
  names := by
    have hnames : net'.name = net.name := funext hrelinked.name
    rw [hnames, List.map_cons, List.nodup_cons]
    refine ⟨fun hmem => ?_, h.names⟩
    obtain ⟨d, hd, he⟩ := List.mem_map.mp hmem
    exact hname d hd he

/-! ## Finding a device -/

theorem search (h : RegistryIs net devs) (name : String) :
    net.searchName name = some (devs.find? fun dev => net.name dev = name) :=
  search_eq_find?_of_nodup h.linked h.nodup

theorem find?_eq_some_iff (h : RegistryIs net devs) {name : String} {dev : DevPtr pool} :
    (devs.find? fun d => net.name d = name) = some dev ↔ dev ∈ devs ∧ net.name dev = name := by
  constructor
  · intro hfind
    exact ⟨List.mem_of_find?_eq_some hfind, by simpa using List.find?_some hfind⟩
  · rintro ⟨hdev, rfl⟩
    obtain ⟨d, hfind⟩ : ∃ d, (devs.find? fun d => net.name d = net.name dev) = some d := by
      rw [← Option.isSome_iff_exists, List.find?_isSome]
      exact ⟨dev, hdev, by simp⟩
    have hname : net.name d = net.name dev := by simpa using List.find?_some hfind
    rw [hfind, List.inj_on_of_nodup_map h.names (List.mem_of_find?_eq_some hfind) hdev hname]

theorem find_eq_some_iff (h : RegistryIs net devs) (name? : Option String) :
    ∃ dev?, novaNetdevFind net name? = some dev? ∧
      ∀ dev, dev? = some dev ↔ dev ∈ devs ∧ name? = some (net.name dev) := by
  cases name? with
  | none => exact ⟨none, rfl, by simp⟩
  | some name =>
      refine ⟨_, h.search name, fun dev => ?_⟩
      rw [h.find?_eq_some_iff, Option.some.injEq, eq_comm (a := name)]

end RegistryIs

/-! ## Registering a device -/

/-- A registration is not refused: the device has a name, and none of `devs` has the same. -/
def Net.Accepts (net : Net pool) (devs : List (DevPtr pool)) (dev : DevPtr pool) : Prop :=
  net.name dev ≠ "" ∧ ∀ d ∈ devs, net.name d ≠ net.name dev

/-- The state in which the open hook of a new device is called. -/
def Net.link (net : Net pool) (dev : DevPtr pool) : Net pool :=
  { net.setNext dev net.registry with registry := some dev }

def Net.openHook (net : Net pool) (dev : DevPtr pool) : Option (Net pool → DevPtr pool → Option (Int × Net pool)) :=
  (net.devices dev).ops.bind fun ops => (opsOf drivers ops).openDev

theorem Net.relinked_link (net : Net pool) (dev) : net.Relinked (net.link dev) where
  device := (Net.Relinked.setNext net dev net.registry).device
  socketTable := rfl
  nextSocketFd := rfl
  sockets := rfl
  hookCalls := rfl

theorem RegistryIs.link (h : RegistryIs net devs) {dev : DevPtr pool} (haccepts : net.Accepts devs dev) :
    RegistryIs (net.link dev) (dev :: devs) :=
  h.cons haccepts.2 (net.relinked_link dev) rfl (Net.next_setNext dev net.registry)

/-- A registration is refused, or it puts the device in front and calls its open hook. -/
theorem RegistryIs.register_cases (h : RegistryIs net devs) (dev? : Option (DevPtr pool)) :
    ((∀ dev, dev? = some dev → ¬ net.Accepts devs dev) ∧ novaNetdevRegister drivers net dev? = some (-1, net)) ∨
    (∃ dev, dev? = some dev ∧ net.Accepts devs dev ∧
      novaNetdevRegister drivers net dev? = match net.openHook drivers dev with
        | none => some (0, net.link dev)
        | some openDev => (openDev (net.link dev) dev).map fun r => (0, r.2)) := by
  cases dev? with
  | none => exact .inl ⟨by simp, rfl⟩
  | some dev =>
      by_cases hempty : net.name dev = ""
      · refine .inl ⟨fun dev' hdev' haccepts => ?_, by simp only [novaNetdevRegister, hempty, ↓reduceIte]⟩
        cases hdev'
        exact haccepts.1 hempty
      · have hsearch := h.search (net.name dev)
        cases hfind : devs.find? fun d => net.name d = net.name dev with
        | some d =>
            rw [hfind] at hsearch
            obtain ⟨hd, hname⟩ := h.find?_eq_some_iff.mp hfind
            refine .inl ⟨fun dev' hdev' haccepts => ?_, ?_⟩
            · cases hdev'
              exact haccepts.2 d hd hname
            · simp only [novaNetdevRegister, hempty, hsearch, ↓reduceIte, Option.bind_some]
        | none =>
            rw [hfind] at hsearch
            have hother : ∀ d ∈ devs, net.name d ≠ net.name dev := by simpa using hfind
            refine .inr ⟨dev, rfl, ⟨hempty, hother⟩, ?_⟩
            have hops : ((net.link dev).devices dev).ops = (net.devices dev).ops := (net.relinked_link dev).ops dev
            have hhook : (net.link dev).openHook drivers dev = net.openHook drivers dev := by
              rw [Net.openHook, hops, Net.openHook]
            rw [← hhook]
            simp only [novaNetdevRegister, hempty, hsearch, ↓reduceIte, Option.bind_some]
            rfl

/-! ## Taking a device out -/

/-- A device that is not registered is refused; any other leaves the chain, and the others stay in their order. -/
theorem RegistryIs.unregister_cases (h : RegistryIs net devs) (dev? : Option (DevPtr pool)) :
    ((∀ dev, dev? = some dev → dev ∉ devs) ∧ novaNetdevUnregister net dev? = some (-1, net)) ∨
    (∃ dev net', dev? = some dev ∧ dev ∈ devs ∧ novaNetdevUnregister net dev? = some (0, net') ∧
      RegistryIs net' (devs.erase dev) ∧ net.Relinked net' ∧ net'.initialized = net.initialized) := by
  cases dev? with
  | none => exact .inl ⟨by simp, rfl⟩
  | some dev =>
      have hlen : devs.length ≤ Fintype.card (DevPtr pool) := h.nodup.length_le_card
      by_cases hdev : dev ∈ devs
      · obtain ⟨ks, rest, rfl⟩ := List.append_of_mem hdev
        have hnodup := h.nodup
        have herase := erase_of_nodup hnodup
        have hlocate : locate net.next dev (Fintype.card (DevPtr pool)) none net.registry =
            some (some ks.getLast?) := by
          rw [locate_eq_some h.linked (not_mem_of_nodup hnodup) (by simp at hlen; omega), Option.or_none]
        have hbypass := h.linked.bypass hnodup
        have hnames : ((ks ++ rest).map net.name).Nodup := by
          rw [← herase]
          exact h.names.sublist (List.erase_sublist.map _)
        refine .inr ⟨dev, _, rfl, hdev, by rw [novaNetdevUnregister, hlocate]; rfl, ?_⟩
        rw [herase]
        cases hlast : ks.getLast? with
        | none =>
            rw [hlast, if_pos (List.getLast?_eq_none_iff.mp hlast)] at hbypass
            have hrelinked : net.Relinked (({ net with registry := net.next dev } : Net pool).setNext dev none) :=
              ⟨(Net.Relinked.setNext net dev none).device, rfl, rfl, rfl, rfl⟩
            refine ⟨⟨?_, ?_⟩, hrelinked, rfl⟩
            · rw [Net.next_setNext]
              exact hbypass
            · rwa [show Net.name _ = net.name from funext hrelinked.name]
        | some prev =>
            have hne : ks ≠ [] := by
              rintro rfl
              cases hlast
            rw [hlast, if_neg hne] at hbypass
            have hrelinked : net.Relinked ((net.setNext prev (net.next dev)).setNext dev none) :=
              (Net.Relinked.setNext ..).trans (.setNext ..)
            refine ⟨⟨?_, ?_⟩, hrelinked, rfl⟩
            · rw [Net.next_setNext, Net.next_setNext]
              exact hbypass
            · rwa [show Net.name _ = net.name from funext hrelinked.name]
      · refine .inl ⟨fun dev' hdev' => by cases hdev'; exact hdev, ?_⟩
        rw [novaNetdevUnregister, locate_eq_none h.linked hdev hlen]
        rfl

/-! ## Shutting the stack down -/

theorem Net.exists_clearNext {ptr : Option (DevPtr pool)} (hlinked : Linked net.next ptr devs) (hnodup : devs.Nodup)
    {fuel : Nat} (hfuel : devs.length ≤ fuel) : ∃ net', Net.clearNext fuel ptr net = some net' ∧ net.Relinked net' := by
  induction devs generalizing net ptr fuel with
  | nil =>
      cases hlinked
      exact ⟨net, by rw [Net.clearNext], .refl net⟩
  | cons dev devs ih =>
      obtain ⟨rfl, hrest⟩ := hlinked
      rw [List.nodup_cons] at hnodup
      cases fuel with
      | zero => simp at hfuel
      | succ fuel =>
          have hrest' : Linked (net.setNext dev none).next (net.next dev) devs := by
            rw [Net.next_setNext]
            refine hrest.congr fun d hd => Function.update_of_ne ?_ _ _
            rintro rfl
            exact hnodup.1 hd
          obtain ⟨net', hclear, hrelinked⟩ := ih hrest' hnodup.2 (Nat.le_of_succ_le_succ hfuel)
          exact ⟨net', hclear, (Net.Relinked.setNext net dev none).trans hrelinked⟩

theorem RegistryIs.exists_shutdown (h : RegistryIs net devs) :
    ∃ net', novaNetworkShutdown net = some (0, net') ∧ net'.registry = none ∧ net'.initialized = false ∧
      net.Relinked net' := by
  obtain ⟨net', hclear, hrelinked⟩ := Net.exists_clearNext h.linked h.nodup h.nodup.length_le_card
  refine ⟨{ net' with registry := none, initialized := false }, ?_, rfl, rfl, ⟨hrelinked.device,
    hrelinked.socketTable, hrelinked.nextSocketFd, hrelinked.sockets, hrelinked.hookCalls⟩⟩
  rw [novaNetworkShutdown, hclear]
  rfl

/-! ## Writing to a device -/

/-- The owner of a device leaves the pointer to the stack, and the name while the device is registered. -/
def ProperEdit (st : Option (Net pool)) (op : RegistryOp pool) : Prop :=
  ∀ net, st = some net → match op with
    | .edit n device =>
        device.next = net.next (.other n) ∧ (net.Registered (.other n) → device.name = net.name (.other n))
    | _ => True

theorem RegistryIs.edit (h : RegistryIs net devs) {dev : DevPtr pool} {device : NovaNetDevice pool}
    (hnext : device.next = net.next dev) (hname : dev ∈ devs → device.name = net.name dev) :
    RegistryIs (net.setDevice dev device) devs where
  linked := by
    refine h.linked.congr fun d _ => ?_
    rw [Net.next, Net.devices_setDevice]
    split
    · next he => rw [he, hnext]
    · rfl
  names := by
    have hnames : devs.map (net.setDevice dev device).name = devs.map net.name := by
      refine List.map_congr_left fun d hd => ?_
      rw [Net.name, Net.devices_setDevice]
      split
      · next he =>
          subst he
          exact hname hd
      · rfl
    rw [hnames]
    exact h.names

end NovaOs.Network
