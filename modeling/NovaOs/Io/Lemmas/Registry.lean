import NovaOs.Io.Basic

/-!
# The registry as a list of devices

`RegistryIs` says which devices the head of the registry leads to, with the lock free. `Effect` says what a call makes
of them. A device that is registered a second time closes the chain to a ring, and then the head leads to no list.
-/

namespace NovaOs.Io

open Lib

variable {pool : Nat} {io io' : IoStack pool} {devs : List (DevPtr pool)} {op : IoOp pool} {answer : IoAnswer pool}

/-- The registry is the chain of the devices `devs`, none twice, and nobody holds its lock. -/
structure RegistryIs (io : IoStack pool) (devs : List (DevPtr pool)) : Prop where
  linked : Linked io.next io.registry devs
  nodup : devs.Nodup
  free : io.registryLock = false

theorem lockRegistry_of_free (hfree : io.registryLock = false) :
    lockRegistry io = some { io with registryLock := true } := by
  rw [lockRegistry, hfree, if_neg Bool.false_ne_true]

theorem unlockRegistry_of_free (hfree : io.registryLock = false) (locked : Bool) :
    unlockRegistry { io with registryLock := locked } = io := by
  rw [unlockRegistry, ← hfree]

/-! ## The devices -/

theorem IoStack.devices_setDevice (dev d : DevPtr pool) (device : NovaDevice pool) :
    (io.setDevice dev device).devices d = if d = dev then device else io.devices d :=
  Function.update_apply ..

theorem IoStack.next_setNext (dev next) : (io.setNext dev next).next = Function.update io.next dev next := by
  funext d
  rw [IoStack.next, setNext, devices_setDevice, Function.update_apply]
  split <;> rfl

theorem IoStack.next_setPrev (dev prev) : (io.setPrev dev prev).next = io.next := by
  funext d
  rw [IoStack.next, setPrev, devices_setDevice]
  split
  · next he => rw [he, IoStack.next]
  · rfl

/-- The devices are the same but for the pointers between them. -/
def IoStack.Relinked (io io' : IoStack pool) : Prop :=
  ∀ dev, { io'.devices dev with next := io.next dev, prev := (io.devices dev).prev } = io.devices dev

namespace IoStack.Relinked

theorem refl (io : IoStack pool) : io.Relinked io := fun _ => rfl

theorem trans {io₁ io₂ io₃ : IoStack pool} (h : io₁.Relinked io₂) (h' : io₂.Relinked io₃) : io₁.Relinked io₃ := by
  intro dev
  rw [← h dev, ← h' dev]

theorem setNext (io : IoStack pool) (dev next) : io.Relinked (io.setNext dev next) := by
  intro d
  rw [IoStack.setNext, devices_setDevice]
  split
  · next he => rw [he]; rfl
  · rfl

theorem setPrev (io : IoStack pool) (dev prev) : io.Relinked (io.setPrev dev prev) := by
  intro d
  rw [IoStack.setPrev, devices_setDevice]
  split
  · next he => rw [he]; rfl
  · rfl

theorem name (h : io.Relinked io') (dev) : io'.name dev = io.name dev := by rw [IoStack.name, IoStack.name, ← h dev]

theorem path (h : io.Relinked io') (dev) : io'.path dev = io.path dev := by rw [IoStack.path, IoStack.path, ← h dev]

theorem major (h : io.Relinked io') (dev) : (io'.devices dev).major = (io.devices dev).major := by rw [← h dev]

theorem minor (h : io.Relinked io') (dev) : (io'.devices dev).minor = (io.devices dev).minor := by rw [← h dev]

end IoStack.Relinked

/-! ## Registering a device -/

/-- The call puts a device into the registry. -/
def IoStack.Registers (io : IoStack pool) (op : IoOp pool) (dev : DevPtr pool) : Prop :=
  op = .register (some dev) ∧ (io.name dev).bytes ≠ []

/-- The major number that a device has once it is registered. -/
def IoStack.number (io : IoStack pool) (dev : DevPtr pool) : UInt32 :=
  if (io.devices dev).major = 0 then io.nextMajor else (io.devices dev).major

/-- The state after a device that has its number is put in front. -/
def IoStack.link (io : IoStack pool) (dev : DevPtr pool) : IoStack pool :=
  let linked := io.setNext dev io.registry
  let linked := match io.registry with
    | some head => linked.setPrev head (some dev)
    | none => linked
  { linked with registry := some dev }

theorem IoStack.next_link (io : IoStack pool) (dev) : (io.link dev).next = Function.update io.next dev io.registry := by
  rw [← io.next_setNext dev io.registry]
  cases hhead : io.registry with
  | none => simp only [link, hhead]; rfl
  | some head =>
      simp only [link, hhead]
      exact next_setPrev ..

theorem IoStack.relinked_link (io : IoStack pool) (dev) : io.Relinked (io.link dev) := by
  cases hhead : io.registry with
  | none =>
      simp only [link, hhead]
      exact Relinked.setNext io dev none
  | some head =>
      simp only [link, hhead]
      exact (Relinked.setNext io dev (some head)).trans (.setPrev _ head (some dev))

/-- What a registration leaves: the device is in front, with its number. -/
structure Registered (io : IoStack pool) (dev : DevPtr pool) (io' : IoStack pool) : Prop where
  registry : io'.registry = some dev
  next : io'.next = Function.update io.next dev io.registry
  free : io'.registryLock = false
  initialized : io'.initialized = io.initialized
  nextMajor : io'.nextMajor = if (io.devices dev).major = 0 then io.nextMajor + 1 else io.nextMajor
  name : ∀ d, io'.name d = io.name d
  path : ∀ d, io'.path d = io.path d
  minor : ∀ d, (io'.devices d).minor = (io.devices d).minor
  major : ∀ d, (io'.devices d).major = if d = dev then io.number dev else (io.devices d).major

theorem IoStack.statics_link (io : IoStack pool) (dev) :
    (io.link dev).registry = some dev ∧ (io.link dev).nextMajor = io.nextMajor ∧
      (io.link dev).initialized = io.initialized := by
  cases hhead : io.registry with
  | none => simp [link, hhead, setNext, setDevice]
  | some head => simp [link, hhead, setNext, setPrev, setDevice]

theorem IoStack.devices_assignMajor (io : IoStack pool) (dev d) :
    (assignMajor io dev).devices d = if d = dev then { io.devices dev with major := io.number dev } else io.devices d := by
  by_cases hmajor : (io.devices dev).major = 0
  · rw [assignMajor, if_pos hmajor, number, if_pos hmajor]
    exact devices_setDevice ..
  · rw [assignMajor, if_neg hmajor, number, if_neg hmajor]
    split
    · next he => rw [he]
    · rfl

theorem IoStack.statics_assignMajor (io : IoStack pool) (dev) :
    (assignMajor io dev).registry = io.registry ∧ (assignMajor io dev).initialized = io.initialized ∧
      (assignMajor io dev).nextMajor = if (io.devices dev).major = 0 then io.nextMajor + 1 else io.nextMajor := by
  by_cases hmajor : (io.devices dev).major = 0
  · simp [assignMajor, hmajor, setMajor, setDevice]
  · simp [assignMajor, hmajor]

theorem Registered.of_link (io : IoStack pool) (dev) (locked : Bool) :
    Registered io dev (unlockRegistry ((assignMajor { io with registryLock := locked } dev).link dev)) := by
  have hdevices : ∀ d, (assignMajor { io with registryLock := locked } dev).devices d =
      if d = dev then { io.devices dev with major := io.number dev } else io.devices d :=
    IoStack.devices_assignMajor _ dev
  obtain ⟨hregistry, hinitialized, hnext⟩ := IoStack.statics_assignMajor { io with registryLock := locked } dev
  generalize assignMajor { io with registryLock := locked } dev = numbered at *
  have hlinked := numbered.relinked_link dev
  obtain ⟨hhead, hnext', hinitialized'⟩ := numbered.statics_link dev
  refine ⟨hhead, ?_, rfl, hinitialized'.trans hinitialized, hnext'.trans hnext, fun d => ?_, fun d => ?_, fun d => ?_,
    fun d => ?_⟩
  · have hsame : numbered.next = io.next := by
      funext d
      rw [IoStack.next, hdevices d]
      split
      · next he => rw [he]; rfl
      · rfl
    rw [← hsame, ← hregistry]
    exact numbered.next_link dev
  · refine (hlinked.name d).trans ?_
    rw [IoStack.name, hdevices d]
    split
    · next he => rw [he]; rfl
    · rfl
  · refine (hlinked.path d).trans ?_
    rw [IoStack.path, hdevices d]
    split
    · next he => rw [he]; rfl
    · rfl
  · refine (hlinked.minor d).trans ?_
    rw [hdevices d]
    split
    · next he => rw [he]
    · rfl
  · refine (hlinked.major d).trans ?_
    rw [hdevices d]
    split <;> rfl

theorem novaDeviceRegister_cases (hfree : io.registryLock = false) (dev? : Option (DevPtr pool)) :
    ((∀ dev, ¬ io.Registers (.register dev?) dev) ∧ novaDeviceRegister io dev? = some (-1, io)) ∨
    (∃ dev io', io.Registers (.register dev?) dev ∧ novaDeviceRegister io dev? = some (0, io') ∧
      Registered io dev io') := by
  cases dev? with
  | none => exact .inl ⟨by simp [IoStack.Registers], rfl⟩
  | some dev =>
      by_cases hname : (io.name dev).bytes = []
      · refine .inl ⟨?_, if_pos hname⟩
        rintro d ⟨hd, hnamed⟩
        cases hd
        exact hnamed hname
      · refine .inr ⟨dev, _, ⟨rfl, hname⟩, ?_, .of_link io dev true⟩
        rw [novaDeviceRegister, if_neg hname, lockRegistry_of_free hfree]
        rfl

theorem RegistryIs.register (h : RegistryIs io devs) {dev : DevPtr pool} (hregistered : Registered io dev io')
    (hdev : dev ∉ devs) : RegistryIs io' (dev :: devs) where
  linked := by
    refine ⟨hregistered.registry, ?_⟩
    rw [hregistered.next, Function.update_self]
    refine h.linked.congr fun d hd => Function.update_of_ne ?_ _ _
    rintro rfl
    exact hdev hd
  nodup := List.nodup_cons.mpr ⟨hdev, h.nodup⟩
  free := hregistered.free

/-- A device that is in the chain closes it to a ring. -/
theorem RegistryIs.register_again (h : RegistryIs io devs) {dev : DevPtr pool} (hregistered : Registered io dev io')
    (hdev : dev ∈ devs) (devs' : List (DevPtr pool)) : ¬ Linked io'.next io'.registry devs' := by
  obtain ⟨ks, rest, rfl⟩ := List.append_of_mem hdev
  rw [hregistered.registry]
  refine h.linked.not_linked_of_back (fun d hd => ?_) ?_ devs'
  · rw [hregistered.next]
    refine Function.update_of_ne ?_ _ _
    rintro rfl
    exact not_mem_of_nodup h.nodup hd
  · rw [hregistered.next, Function.update_self]

/-! ## Unregistering a device -/

/-- The state after the pointer to a device behind `prev` was moved on. -/
def IoStack.detach (io : IoStack pool) (dev : DevPtr pool) : Option (DevPtr pool) → IoStack pool
  | some before => io.setNext before (io.next dev)
  | none => { io with registry := io.next dev }

/-- The state after a device was taken out behind `prev`. -/
def IoStack.unlink (io : IoStack pool) (dev : DevPtr pool) (prev : Option (DevPtr pool)) : IoStack pool :=
  match (io.detach dev prev).next dev with
  | some after => (io.detach dev prev).setPrev after prev
  | none => io.detach dev prev

theorem IoStack.next_detach (io : IoStack pool) {dev d : DevPtr pool} (hne : d ≠ dev) (prev) :
    (io.detach dev prev).next d = bypass io.next dev prev d := by
  cases prev with
  | none =>
      rw [bypass, Function.update_of_ne hne]
      rfl
  | some before =>
      rw [bypass, Function.update_of_ne hne, ← io.next_setNext before (io.next dev)]
      rfl

theorem IoStack.next_detach_self (io : IoStack pool) (dev prev) : (io.detach dev prev).next dev = io.next dev := by
  cases prev with
  | none => rfl
  | some before =>
      rw [detach, next_setNext, Function.update_apply]
      split <;> rfl

theorem IoStack.registry_detach (io : IoStack pool) (dev prev) :
    (io.detach dev prev).registry = if prev = none then io.next dev else io.registry := by
  cases prev with
  | none => rfl
  | some before => rfl

theorem IoStack.relinked_detach (io : IoStack pool) (dev prev) : io.Relinked (io.detach dev prev) := by
  cases prev with
  | none => exact Relinked.refl io
  | some before => exact Relinked.setNext io before (io.next dev)

theorem IoStack.next_unlink (io : IoStack pool) (dev prev) : (io.unlink dev prev).next = (io.detach dev prev).next := by
  unfold unlink
  split
  · exact next_setPrev ..
  · rfl

theorem IoStack.statics_unlink (io : IoStack pool) (dev prev) :
    (io.unlink dev prev).registry = (io.detach dev prev).registry ∧ (io.unlink dev prev).nextMajor = io.nextMajor := by
  unfold unlink
  split <;> cases prev <;> exact ⟨rfl, rfl⟩

theorem IoStack.relinked_unlink (io : IoStack pool) (dev prev) : io.Relinked (io.unlink dev prev) := by
  unfold unlink
  split
  · next after _ => exact (io.relinked_detach dev prev).trans (.setPrev _ after prev)
  · exact io.relinked_detach dev prev

theorem linked_unlink {ks rest : List (DevPtr pool)} {dev : DevPtr pool}
    (h : Linked io.next io.registry (ks ++ dev :: rest)) (hnodup : (ks ++ dev :: rest).Nodup) :
    Linked (io.unlink dev ks.getLast?).next (io.unlink dev ks.getLast?).registry (ks ++ rest) := by
  have hbypass := h.bypass hnodup
  rw [io.next_unlink, (io.statics_unlink dev _).1, io.registry_detach]
  simp only [List.getLast?_eq_none_iff]
  refine hbypass.congr fun d hd => io.next_detach ?_ _
  rintro rfl
  rw [List.nodup_middle, List.nodup_cons] at hnodup
  exact hnodup.1 hd

theorem RegistryIs.unregister_eq {ks rest : List (DevPtr pool)} {dev : DevPtr pool}
    (h : RegistryIs io (ks ++ dev :: rest)) :
    novaDeviceUnregister io (some dev) =
      some (0, unlockRegistry (IoStack.unlink { io with registryLock := true } dev ks.getLast?)) := by
  have hlen : (ks ++ dev :: rest).length ≤ Fintype.card (DevPtr pool) := h.nodup.length_le_card
  rw [List.length_append, List.length_cons] at hlen
  have hlocate : locate (IoStack.next { io with registryLock := true }) dev (Fintype.card (DevPtr pool)) none io.registry =
      some (some (ks.getLast?.or none)) := locate_eq_some h.linked (not_mem_of_nodup h.nodup) (by omega) none
  rw [Option.or_none] at hlocate
  rw [novaDeviceUnregister, lockRegistry_of_free h.free, Option.bind_some, hlocate]
  rfl

theorem RegistryIs.unregister (h : RegistryIs io devs) {dev : DevPtr pool} (hdev : dev ∈ devs) :
    ∃ io', novaDeviceUnregister io (some dev) = some (0, io') ∧ RegistryIs io' (devs.erase dev) ∧ io.Relinked io' ∧
      io'.nextMajor = io.nextMajor := by
  obtain ⟨ks, rest, rfl⟩ := List.append_of_mem hdev
  let locked : IoStack pool := { io with registryLock := true }
  refine ⟨_, h.unregister_eq, ⟨?_, ?_, rfl⟩, locked.relinked_unlink dev _, (locked.statics_unlink dev _).2⟩
  · rw [erase_of_nodup h.nodup]
    have hlinked : Linked locked.next locked.registry (ks ++ dev :: rest) := h.linked
    exact linked_unlink hlinked h.nodup
  · exact h.nodup.erase dev

theorem RegistryIs.unregister_absent (h : RegistryIs io devs) {dev : DevPtr pool} (hdev : dev ∉ devs) :
    novaDeviceUnregister io (some dev) = some (-1, io) := by
  have hlocate : locate (IoStack.next { io with registryLock := true }) dev (Fintype.card (DevPtr pool)) none
      io.registry = some none := locate_eq_none h.linked hdev h.nodup.length_le_card none
  rw [novaDeviceUnregister, lockRegistry_of_free h.free, Option.bind_some, hlocate, Option.map_some,
    unlockRegistry_of_free h.free]

/-! ## Finding a device -/

theorem RegistryIs.searchRegistry (h : RegistryIs io devs) (p : NovaDevice pool → Bool) :
    searchRegistry io p = some (devs.find? fun dev => p (io.devices dev), io) := by
  have hsearch : search (IoStack.next { io with registryLock := true }) (fun dev => p (io.devices dev))
      (Fintype.card (DevPtr pool)) io.registry = some (devs.find? fun dev => p (io.devices dev)) :=
    search_eq_find?_of_nodup h.linked h.nodup
  rw [Io.searchRegistry, lockRegistry_of_free h.free, Option.bind_some, hsearch, Option.map_some,
    unlockRegistry_of_free h.free]

theorem RegistryIs.find (h : RegistryIs io devs) (path : CString) :
    novaDeviceFind io (some path) = some (devs.find? fun dev => io.path dev = path, io) :=
  h.searchRegistry fun device => device.path = path

theorem RegistryIs.getByMajorMinor (h : RegistryIs io devs) (major minor : UInt32) :
    novaDeviceGetByMajorMinor io major minor =
      some (devs.find? fun dev => (io.devices dev).major = major ∧ (io.devices dev).minor = minor, io) :=
  h.searchRegistry fun device => device.major = major ∧ device.minor = minor

/-! ## What a call does -/

/-- What the call `op` makes of the registry of `devs` when it answers `answer`. -/
inductive Effect (io : IoStack pool) (devs : List (DevPtr pool)) (op : IoOp pool) (answer : IoAnswer pool)
    (io' : IoStack pool) : Prop where
  | clear (hop : op = .init) (hfresh : io.initialized = false)
      (hnext : io' = { io with registry := none, nextMajor := 1, initialized := true })
  | register (dev) (hregisters : io.Registers op dev) (hanswer : answer = .int 0) (hregistered : Registered io dev io')
  | unregister (dev) (hop : op = .unregister (some dev)) (hdev : dev ∈ devs) (hanswer : answer = .int 0)
      (hregistry : RegistryIs io' (devs.erase dev)) (hrelinked : io.Relinked io') (hmajor : io'.nextMajor = io.nextMajor)
  | same (hinit : op = .init → io.initialized = true) (hregister : ∀ dev, ¬ io.Registers op dev)
      (hanswer : ∀ dev, op = .register (some dev) ∨ op = .unregister (some dev) → answer = .int (-1)) (hnext : io' = io)

theorem RegistryIs.effect (h : RegistryIs io devs) (op : IoOp pool) :
    ∃ answer io', ioStep io op = some (answer, io') ∧ Effect io devs op answer io' := by
  cases op with
  | init =>
      cases hinit : io.initialized with
      | true =>
          refine ⟨.int 0, io, ?_, .same (fun _ => hinit) (by simp [IoStack.Registers]) (by simp) rfl⟩
          simp [ioStep, novaIoInit, hinit]
      | false =>
          refine ⟨.int 0, _, ?_, .clear rfl hinit rfl⟩
          simp [ioStep, novaIoInit, hinit]
  | register dev? =>
      rcases novaDeviceRegister_cases h.free dev? with ⟨hrefused, hcall⟩ | ⟨dev, io', hregisters, hcall, hregistered⟩
      · refine ⟨.int (-1), io, ?_, .same (by simp) ?_ (fun _ _ => rfl) rfl⟩
        · rw [ioStep, hcall, Option.map_some]
        · exact hrefused
      · refine ⟨.int 0, io', ?_, .register dev hregisters rfl hregistered⟩
        rw [ioStep, hcall, Option.map_some]
  | unregister dev? =>
      cases dev? with
      | none => exact ⟨.int (-1), io, rfl, .same (by simp) (by simp [IoStack.Registers]) (fun _ _ => rfl) rfl⟩
      | some dev =>
          by_cases hdev : dev ∈ devs
          · obtain ⟨io', hcall, hregistry, hrelinked, hmajor⟩ := h.unregister hdev
            refine ⟨.int 0, io', ?_, .unregister dev rfl hdev rfl hregistry hrelinked hmajor⟩
            rw [ioStep, hcall, Option.map_some]
          · refine ⟨.int (-1), io, ?_, .same (by simp) (by simp [IoStack.Registers]) (fun _ _ => rfl) rfl⟩
            rw [ioStep, h.unregister_absent hdev, Option.map_some]
  | find path? =>
      cases path? with
      | none => exact ⟨.device none, io, rfl, .same (by simp) (by simp [IoStack.Registers]) (by simp) rfl⟩
      | some path =>
          refine ⟨.device (devs.find? fun dev => io.path dev = path), io, ?_,
            .same (by simp) (by simp [IoStack.Registers]) (by simp) rfl⟩
          rw [ioStep, h.find, Option.map_some]
  | getByMajorMinor major minor =>
      refine ⟨.device (devs.find? fun dev => (io.devices dev).major = major ∧ (io.devices dev).minor = minor), io, ?_,
        .same (by simp) (by simp [IoStack.Registers]) (by simp) rfl⟩
      rw [ioStep, h.getByMajorMinor, Option.map_some]

end NovaOs.Io
