import NovaOs.Io.Directory
import NovaOs.Io.Theorems.Concurrent

/-!
# The registry refines the directory of devices

As long as no device is registered twice at a time, the calls are answered as the directory answers them, for one thread
and for any number of threads.
-/

namespace NovaOs.Io

open Lib

variable {pool : Nat} {devices : DevPtr pool → NovaDevice pool} {io : IoStack pool} {d : Directory pool}
  {op : IoOp pool}

/-- The registry shows the directory, and the devices have kept what they came with. -/
structure Shows (devices : DevPtr pool → NovaDevice pool) (d : Directory pool) (io : IoStack pool) : Prop where
  registry : RegistryIs io d.devs
  major : ∀ dev, (io.devices dev).major = d.major dev
  nextMajor : io.nextMajor = d.nextMajor
  initialized : io.initialized = d.initialized
  name : ∀ dev, io.name dev = (devices dev).name
  path : ∀ dev, io.path dev = (devices dev).path
  minor : ∀ dev, (io.devices dev).minor = (devices dev).minor

theorem IoStack.initialized_unlink (io : IoStack pool) (dev prev) :
    (io.unlink dev prev).initialized = io.initialized := by
  unfold unlink
  split <;> cases prev <;> rfl

theorem RegistryIs.initialized_unregister {devs : List (DevPtr pool)} {dev : DevPtr pool} {io' : IoStack pool}
    (h : RegistryIs io devs) (hdev : dev ∈ devs) (hcall : novaDeviceUnregister io (some dev) = some (0, io')) :
    io'.initialized = io.initialized := by
  obtain ⟨ks, rest, rfl⟩ := List.append_of_mem hdev
  rw [h.unregister_eq] at hcall
  cases hcall
  exact IoStack.initialized_unlink ..

namespace Shows

theorem start (devices : DevPtr pool → NovaDevice pool) : Shows devices (.empty devices) (programStart devices) where
  registry := .start devices
  major _ := rfl
  nextMajor := rfl
  initialized := rfl
  name _ := rfl
  path _ := rfl
  minor _ := rfl

/-- A call without an effect. -/
theorem same (h : Shows devices d io) (hcall : ioStep io op = some ((directoryMachine devices).out d op, io))
    (hnext : (directoryMachine devices).next d op = d) :
    ∃ io', ioStep io op = some ((directoryMachine devices).out d op, io') ∧
      Shows devices ((directoryMachine devices).next d op) io' :=
  ⟨io, hcall, by rwa [hnext]⟩

theorem init (h : Shows devices d io) :
    ∃ io', ioStep io .init = some ((directoryMachine devices).out d .init, io') ∧
      Shows devices ((directoryMachine devices).next d .init) io' := by
  have hinit := h.initialized
  cases hd : d.initialized with
  | true =>
      rw [hd] at hinit
      apply h.same
      · simp [ioStep, novaIoInit, hinit, Machine.out, directoryMachine]
      · simp [Machine.next, directoryMachine, hd]
  | false =>
      rw [hd] at hinit
      refine ⟨{ io with registry := none, nextMajor := 1, initialized := true }, ?_, ?_⟩
      · simp [ioStep, novaIoInit, hinit, Machine.out, directoryMachine]
      · have hnext : (directoryMachine devices).next d .init =
            { d with devs := [], nextMajor := 1, initialized := true } := by
          simp [Machine.next, directoryMachine, hd]
        rw [hnext]
        exact ⟨h.registry.clear, h.major, rfl, rfl, h.name, h.path, h.minor⟩

theorem add (h : Shows devices d io) {dev : DevPtr pool} {io' : IoStack pool} (hregistered : Registered io dev io')
    (hnew : dev ∉ d.devs) : Shows devices (d.add dev) io' := by
  have hregistry := h.registry.register hregistered hnew
  have hmajor := hregistered.major
  have hnextMajor := hregistered.nextMajor
  have hname : ∀ d, io'.name d = (devices d).name := fun d => (hregistered.name d).trans (h.name d)
  have hpath : ∀ d, io'.path d = (devices d).path := fun d => (hregistered.path d).trans (h.path d)
  have hminor : ∀ d, (io'.devices d).minor = (devices d).minor := fun d => (hregistered.minor d).trans (h.minor d)
  have hinitialized := hregistered.initialized.trans h.initialized
  simp only [IoStack.number, h.major, h.nextMajor] at hmajor hnextMajor
  by_cases hzero : d.major dev = 0
  · rw [Directory.add, if_pos hzero]
    simp only [hzero, ↓reduceIte] at hmajor hnextMajor
    refine ⟨hregistry, fun d' => ?_, hnextMajor, hinitialized, hname, hpath, hminor⟩
    rw [hmajor]
    exact (Function.update_apply ..).symm
  · rw [Directory.add, if_neg hzero]
    simp only [hzero, ↓reduceIte] at hmajor hnextMajor
    refine ⟨hregistry, fun d' => ?_, hnextMajor, hinitialized, hname, hpath, hminor⟩
    rw [hmajor]
    split
    · next he => rw [he]
    · rfl

theorem register (h : Shows devices d io) (dev? : Option (DevPtr pool)) (hnew : d.Fresh (.register dev?)) :
    ∃ io', ioStep io (.register dev?) = some ((directoryMachine devices).out d (.register dev?), io') ∧
      Shows devices ((directoryMachine devices).next d (.register dev?)) io' := by
  cases dev? with
  | none => exact h.same rfl rfl
  | some dev =>
      by_cases hname : (devices dev).name.bytes = []
      · have hname' : (io.name dev).bytes = [] := by rw [h.name, hname]
        apply h.same
        · simp [ioStep, novaDeviceRegister, hname', Machine.out, directoryMachine, hname]
        · simp [Machine.next, directoryMachine, hname]
      · have hname' : (io.name dev).bytes ≠ [] := by rwa [h.name]
        have hdev : dev ∉ d.devs := fun hmem => hnew dev hmem rfl
        rcases novaDeviceRegister_cases h.registry.free (some dev) with
          ⟨hrefused, _⟩ | ⟨dev', io', hreg, hcall, hregistered⟩
        · exact absurd ⟨rfl, hname'⟩ (hrefused dev)
        · cases hreg.1
          refine ⟨io', ?_, ?_⟩
          · simp [ioStep, hcall, Machine.out, directoryMachine, hname]
          · have hadd := h.add hregistered hdev
            simpa [Machine.next, directoryMachine, hname] using hadd

theorem remove (h : Shows devices d io) {dev : DevPtr pool} {io' : IoStack pool}
    (hregistry : RegistryIs io' (d.devs.erase dev)) (hrelinked : io.Relinked io') (hmajor : io'.nextMajor = io.nextMajor)
    (hinitialized : io'.initialized = io.initialized) : Shows devices { d with devs := d.devs.erase dev } io' where
  registry := hregistry
  major dev := (hrelinked.major dev).trans (h.major dev)
  nextMajor := hmajor.trans h.nextMajor
  initialized := hinitialized.trans h.initialized
  name dev := (hrelinked.name dev).trans (h.name dev)
  path dev := (hrelinked.path dev).trans (h.path dev)
  minor dev := (hrelinked.minor dev).trans (h.minor dev)

theorem unregister (h : Shows devices d io) (dev? : Option (DevPtr pool)) :
    ∃ io', ioStep io (.unregister dev?) = some ((directoryMachine devices).out d (.unregister dev?), io') ∧
      Shows devices ((directoryMachine devices).next d (.unregister dev?)) io' := by
  cases dev? with
  | none => exact h.same rfl rfl
  | some dev =>
      by_cases hdev : dev ∈ d.devs
      · obtain ⟨io', hcall, hregistry, hrelinked, hmajor⟩ := h.registry.unregister hdev
        refine ⟨io', ?_, ?_⟩
        · simp [ioStep, hcall, Machine.out, directoryMachine, hdev]
        · have hremove := h.remove hregistry hrelinked hmajor (h.registry.initialized_unregister hdev hcall)
          simpa [Machine.next, directoryMachine, hdev] using hremove
      · apply h.same
        · simp [ioStep, h.registry.unregister_absent hdev, Machine.out, directoryMachine, hdev]
        · simp [Machine.next, directoryMachine, hdev]

theorem find (h : Shows devices d io) (path? : Option CString) :
    ioStep io (.find path?) = some ((directoryMachine devices).out d (.find path?), io) := by
  cases path? with
  | none => rfl
  | some path =>
      rw [ioStep, h.registry.find, Option.map_some]
      simp only [h.path]
      rfl

theorem getByMajorMinor (h : Shows devices d io) (major minor : UInt32) :
    ioStep io (.getByMajorMinor major minor) =
      some ((directoryMachine devices).out d (.getByMajorMinor major minor), io) := by
  rw [ioStep, h.registry.getByMajorMinor, Option.map_some]
  simp only [h.major, h.minor]
  rfl

/-- Every call that registers nothing twice is answered as the directory answers it. -/
theorem next (h : Shows devices d io) (hnew : d.Fresh op) :
    ∃ io', ioStep io op = some ((directoryMachine devices).out d op, io') ∧
      Shows devices ((directoryMachine devices).next d op) io' := by
  cases op with
  | init => exact h.init
  | register dev? => exact h.register dev? hnew
  | unregister dev? => exact h.unregister dev?
  | find path? => exact ⟨io, h.find path?, by cases path? <;> exact h⟩
  | getByMajorMinor major minor => exact ⟨io, h.getByMajorMinor major minor, h⟩

end Shows

/-- In a run that registers no device twice at a time, the registry is the directory: the answers are the same. -/
theorem registry_refines_directory (devices : DevPtr pool → NovaDevice pool) {ops : List (IoOp pool)}
    (hfresh : (directoryMachine devices).Along Directory.Fresh (.empty devices) ops) :
    (ioMachine pool).trace (some (programStart devices)) ops =
        ((directoryMachine devices).trace (.empty devices) ops).map (Prod.map id some) ∧
      ∃ io, (ioMachine pool).exec (some (programStart devices)) ops = some io ∧
        Linked io.next io.registry ((directoryMachine devices).exec (.empty devices) ops).devs := by
  obtain ⟨htrace, io, hexec, h⟩ := Machine.ofPartial_refines (fun _ _ _ h => h.next) (Shows.start devices) hfresh
  exact ⟨htrace, io, hexec, h.registry.linked⟩

/-- A disk is registered after a tape, and taken out again. -/
def replug (tape disk : DevPtr pool) : List (IoOp pool) :=
  [.register (some tape), .register (some disk), .getByMajorMinor 1 0, .unregister (some disk), .getByMajorMinor 1 0,
    .register (some disk)]

theorem registry_refines_directory_replug :
    (ioMachine 2).trace (some (programStart drives)) (replug 0 1) =
        ((directoryMachine drives).trace (.empty drives) (replug 0 1)).map (Prod.map id some) ∧
      ∃ io, (ioMachine 2).exec (some (programStart drives)) (replug 0 1) = some io ∧
        Linked io.next io.registry ((directoryMachine drives).exec (.empty drives) (replug 0 1)).devs :=
  registry_refines_directory drives (by decide)

/-- In whatever order threads take their steps, the answers are those of the directory to the same calls, one after the
other, as long as no device is registered twice at a time. -/
theorem threads_share_directory {τ : Type*} [DecidableEq τ] (devices : DevPtr pool → NovaDevice pool)
    (moves : List (τ × RegistryOp pool)) :
    let history := (registryMonitor pool).concurrent.trace (programStart devices, fun _ => .idle) moves
    let st := (registryMonitor pool).concurrent.exec (programStart devices, fun _ => .idle) moves
    (directoryMachine devices).Along Directory.Fresh (.empty devices) (answered history) →
      (directoryMachine devices).trace (.empty devices) (answered history) =
          (Monitor.responses history).map (fun r => (r.1.toIoOp, r.2)) ∧
        (st.1.registryLock = false →
          Linked st.1.next st.1.registry ((directoryMachine devices).exec (.empty devices) (answered history)).devs) := by
  intro history st hfresh
  obtain ⟨done, h, hexec, htrace⟩ := registry_linearized (programStart devices) rfl moves
  obtain ⟨htrace', io, hexec', hshows⟩ := Machine.ofPartial_refines (fun _ _ _ h => h.next) (Shows.start devices) hfresh
  obtain rfl : done = io := Option.some.inj (hexec.symm.trans hexec')
  refine ⟨?_, fun hfree => ?_⟩
  · have hsome : ((directoryMachine devices).trace (.empty devices) (answered history)).map (Prod.map id some) =
        ((Monitor.responses history).map fun r => (r.1.toIoOp, r.2)).map (Prod.map id some) := by
      rw [← htrace', List.map_map]
      exact htrace
    have hinj : Function.Injective (Prod.map id some : IoOp pool × IoAnswer pool → IoOp pool × Option (IoAnswer pool)) :=
      Function.injective_id.prodMap (Option.some_injective _)
    exact hinj.list_map hsome
  · rw [h.inside.eq_done hfree]
    exact hshows.registry.linked

theorem threads_share_directory_plugIn :
    let history := (registryMonitor 1).concurrent.trace (programStart disk, fun _ => .idle) (plugIn 0)
    let st := (registryMonitor 1).concurrent.exec (programStart disk, fun _ => .idle) (plugIn 0)
    answered history = [.register (some 0), .getByMajorMinor 1 0] ∧ st.1.registryLock = false ∧
      (directoryMachine disk).trace (.empty disk) (answered history) =
        (Monitor.responses history).map (fun r => (r.1.toIoOp, r.2)) ∧
      Linked st.1.next st.1.registry ((directoryMachine disk).exec (.empty disk) (answered history)).devs := by
  intro history st
  have hanswered : answered history = [.register (some 0), .getByMajorMinor 1 0] := by decide +kernel
  have hfree : st.1.registryLock = false := by decide +kernel
  have hfresh : (directoryMachine disk).Along Directory.Fresh (.empty disk) (answered history) := by
    rw [hanswered]
    decide
  obtain ⟨htrace, hlinked⟩ := threads_share_directory disk (plugIn 0) hfresh
  exact ⟨hanswered, hfree, htrace, hlinked hfree⟩

end NovaOs.Io
