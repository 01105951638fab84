import NovaOs.Network.Lemmas.Registry

/-!
# What the hooks of the drivers leave alone

The stack calls the hooks of drivers it does not know. `OpensKeep` and `XmitsKeep` say what it counts on: the hooks
return, and they work on packets, counters and flags. The hooks of `lo` and `nic0` do. That a call is recorded changes
nothing else.
-/

namespace NovaOs.Network

open Lib

variable {pool : Nat} {drivers : Nat → NovaNetDeviceOps pool} {net net' : Net pool} {devs : List (DevPtr pool)}

/-- The states differ in packets, counters, flags and recorded calls only. -/
structure Net.SameStack (net net' : Net pool) : Prop extends net.Agrees net' where
  nextSocketFd : net'.nextSocketFd = net.nextSocketFd

namespace Net.SameStack

theorem refl (net : Net pool) : net.SameStack net := ⟨.refl net, rfl⟩

theorem trans {net₁ net₂ net₃ : Net pool} (h : net₁.SameStack net₂) (h' : net₂.SameStack net₃) : net₁.SameStack net₃ :=
  ⟨h.toAgrees.trans h'.toAgrees, h'.nextSocketFd.trans h.nextSocketFd⟩

theorem sameRegistry (h : net.SameStack net') : net.SameRegistry net' where
  registry := h.registry
  next dev := congrArg (fun w => w.2.2) (h.wiring dev)
  name dev := congrArg Prod.fst (h.wiring dev)

theorem ops (h : net.SameStack net') (dev) : (net'.devices dev).ops = (net.devices dev).ops :=
  congrArg (fun w => w.2.1) (h.wiring dev)

theorem skbs (net : Net pool) (skbs : Heap (NovaSkBuff pool)) : net.SameStack { net with skbs := skbs } :=
  ⟨.skbs net skbs, rfl⟩

theorem hookCalls (net : Net pool) (calls : List (HookCall pool)) : net.SameStack { net with hookCalls := calls } :=
  ⟨⟨fun _ => rfl, rfl, rfl, rfl, rfl⟩, rfl⟩

theorem setDevice {dev : DevPtr pool} {device : NovaNetDevice pool}
    (h : device.wiring = (net.devices dev).wiring) : net.SameStack (net.setDevice dev device) :=
  ⟨.setDevice h, rfl⟩

theorem countTx (net : Net pool) (dev len) : net.SameStack (net.countTx dev len) := .setDevice rfl

theorem countRx (net : Net pool) (dev len) : net.SameStack (net.countRx dev len) := .setDevice rfl

end Net.SameStack

/-! ## Contracts -/

/-- Every open hook of another driver returns and moves between states related by `R`. -/
def OpensKeep (drivers : Nat → NovaNetDeviceOps pool) (R : Net pool → Net pool → Prop) : Prop :=
  ∀ n hook, (drivers n).openDev = some hook → ∀ net dev, ∃ result net', hook net dev = some (result, net') ∧ R net net'

/-- Every transmission hook of another driver returns, leaves the stack alone, and gives a packet it refuses back. -/
def XmitsKeep (drivers : Nat → NovaNetDeviceOps pool) : Prop :=
  ∀ n hook, (drivers n).startXmit = some hook → ∀ net dev skb, net.skbs.Live skb →
    ∃ result net', hook net (some dev) (some skb) = some (result, net') ∧ net.SameStack net' ∧
      (result ≠ 0 → net'.skbs.Live skb)

/-- The relation does not see packets, counters, flags and recorded calls. -/
structure IgnoresStack (R : Net pool → Net pool → Prop) : Prop where
  refl : ∀ net, R net net
  stack : ∀ net₁ net₂ net₃, R net₁ net₂ → net₂.SameStack net₃ → R net₁ net₃

theorem IgnoresStack.of_sameStack {R : Net pool → Net pool → Prop} (h : IgnoresStack R) (hsame : net.SameStack net') :
    R net net' := h.stack _ _ _ (h.refl net) hsame

theorem ignoresStack_sameStack : IgnoresStack (@Net.SameStack pool) :=
  ⟨.refl, fun _ _ _ h h' => h.trans h'⟩

theorem ignoresStack_sameRegistry : IgnoresStack (@Net.SameRegistry pool) :=
  ⟨.refl, fun _ _ _ h h' => h.trans h'.sameRegistry⟩

/-- An open hook that is called is one of `lo`, of `nic0` or of another driver, and its call is recorded. -/
theorem Net.openHook_eq_some {dev hook} (hhook : net.openHook drivers dev = some hook) :
    ∃ call, hook = recorded .openDev call ∧ (call = loOpen ∨ call = nicOpen ∨ ∃ n, (drivers n).openDev = some call) := by
  rw [Net.openHook, Option.bind_eq_some_iff] at hhook
  obtain ⟨ops, _, hhook⟩ := hhook
  obtain ⟨call, hcall, rfl⟩ := Option.map_eq_some_iff.mp hhook
  refine ⟨call, rfl, ?_⟩
  cases ops with
  | lo => exact .inl (Option.some.inj hcall).symm
  | nic => exact .inr (.inl (Option.some.inj hcall).symm)
  | other n => exact .inr (.inr ⟨n, hcall⟩)

theorem OpensKeep.openHook {R : Net pool → Net pool → Prop} (h : OpensKeep drivers R) (hR : IgnoresStack R)
    {net₀ dev₀ hook} (hhook : Net.openHook drivers net₀ dev₀ = some hook) (net dev) :
    ∃ result net', hook net dev = some (result, net') ∧ R net net' ∧
      net'.hookCalls = ⟨dev, .openDev, result⟩ :: net.hookCalls := by
  obtain ⟨call, rfl, hcall⟩ := Net.openHook_eq_some hhook
  have hopens : ∃ result net', call net dev = some (result, net') ∧ R net net' := by
    rcases hcall with rfl | rfl | ⟨n, hother⟩
    · exact ⟨0, _, rfl, hR.of_sameStack (.setDevice rfl)⟩
    · exact ⟨0, _, rfl, hR.of_sameStack (.setDevice rfl)⟩
    · exact h n call hother net dev
  obtain ⟨result, net', hopen, hkeeps⟩ := hopens
  refine ⟨result, { net' with hookCalls := ⟨dev, .openDev, result⟩ :: net.hookCalls }, ?_, ?_, rfl⟩
  · rw [recorded, hopen, Option.map_some]
  · exact hR.stack _ _ _ hkeeps (.hookCalls ..)

theorem novaNetifReceiveSkb_keeps {skb : SkbPtr} (hlive : net.skbs.Live skb) :
    ∃ net', novaNetifReceiveSkb net (some skb) = some (0, net') ∧ net.SameStack net' := by
  obtain ⟨buff, hget⟩ := Option.ne_none_iff_exists'.mp hlive
  refine ⟨_, by rw [novaNetifReceiveSkb, hget]; rfl, ?_⟩
  cases buff.dev with
  | none => exact .skbs ..
  | some dev => exact (Net.SameStack.countRx ..).trans (.skbs ..)

theorem loStartXmit_keeps (dev : DevPtr pool) {skb : SkbPtr} (hlive : net.skbs.Live skb) :
    ∃ net', loStartXmit net (some dev) (some skb) = some (0, net') ∧ net.SameStack net' := by
  obtain ⟨buff, hget⟩ := Option.ne_none_iff_exists'.mp hlive
  have hlive' : ((net.countTx dev buff.len).countRx dev buff.len).skbs.Live skb := hlive
  obtain ⟨net', hreceive, hsame⟩ := novaNetifReceiveSkb_keeps hlive'
  refine ⟨net', ?_, ((Net.SameStack.countTx ..).trans (.countRx ..)).trans hsame⟩
  simp only [loStartXmit, hget, hreceive, Option.bind_some, Option.map_some]

theorem nicStartXmit_keeps (dev : DevPtr pool) {skb : SkbPtr} (hlive : net.skbs.Live skb) :
    ∃ net', nicStartXmit net (some dev) (some skb) = some (0, net') ∧ net.SameStack net' := by
  obtain ⟨buff, hget⟩ := Option.ne_none_iff_exists'.mp hlive
  obtain ⟨skbs, hfree, _⟩ := Heap.exists_free _ hlive
  have hfree' : (net.countTx dev buff.len).skbs.free skb = some skbs := hfree
  refine ⟨{ net.countTx dev buff.len with skbs := skbs }, ?_, (Net.SameStack.countTx ..).trans (.skbs ..)⟩
  simp only [nicStartXmit, hget, novaFreeSkb, hfree', Option.bind_some, Option.map_some]

/-- A hook is that of `lo`, that of `nic0` or that of another driver. -/
theorem Net.startXmit_eq_some {dev?} {hook} (hhook : net.startXmit drivers dev? = some hook) :
    hook = loStartXmit ∨ hook = nicStartXmit ∨ ∃ n, (drivers n).startXmit = some hook := by
  rw [Net.startXmit, Option.bind_eq_some_iff] at hhook
  obtain ⟨_, _, hhook⟩ := hhook
  rw [Option.bind_eq_some_iff] at hhook
  obtain ⟨ops, _, hhook⟩ := hhook
  cases ops with
  | lo => exact .inl (Option.some.inj hhook).symm
  | nic => exact .inr (.inl (Option.some.inj hhook).symm)
  | other n => exact .inr (.inr ⟨n, hhook⟩)

theorem XmitsKeep.startXmit (h : XmitsKeep drivers) {net₀ : Net pool} {dev?} {hook}
    (hhook : net₀.startXmit drivers dev? = some hook) (net : Net pool) (dev) {skb} (hlive : net.skbs.Live skb) :
    ∃ result net', hook net (some dev) (some skb) = some (result, net') ∧ net.SameStack net' ∧
      (result ≠ 0 → net'.skbs.Live skb) := by
  rcases Net.startXmit_eq_some hhook with rfl | rfl | ⟨n, hother⟩
  · obtain ⟨net', hxmit, hsame⟩ := loStartXmit_keeps dev hlive
    exact ⟨0, net', hxmit, hsame, fun hne => absurd rfl hne⟩
  · obtain ⟨net', hxmit, hsame⟩ := nicStartXmit_keeps dev hlive
    exact ⟨0, net', hxmit, hsame, fun hne => absurd rfl hne⟩
  · exact h n hook hother net dev skb hlive

/-! ## Registering a device -/

theorem RegistryIs.register {R : Net pool → Net pool → Prop} (h : RegistryIs net devs) (hopens : OpensKeep drivers R)
    (hR : IgnoresStack R) (dev? : Option (DevPtr pool)) :
    ((∀ dev, dev? = some dev → ¬ net.Accepts devs dev) ∧ novaNetdevRegister drivers net dev? = some (-1, net)) ∨
    (∃ dev net', dev? = some dev ∧ net.Accepts devs dev ∧ novaNetdevRegister drivers net dev? = some (0, net') ∧
      R (net.link dev) net') := by
  rcases h.register_cases drivers dev? with hrefused | ⟨dev, hdev, haccepts, hregister⟩
  · exact .inl hrefused
  · cases hhook : net.openHook drivers dev with
    | none => exact .inr ⟨dev, net.link dev, hdev, haccepts, by rw [hregister, hhook], hR.refl _⟩
    | some hook =>
        obtain ⟨result, net', hopen, hkeeps, _⟩ := hopens.openHook hR hhook (net.link dev) dev
        exact .inr ⟨dev, net', hdev, haccepts, by rw [hregister, hhook]; simp only [hopen, Option.map_some], hkeeps⟩

end NovaOs.Network
