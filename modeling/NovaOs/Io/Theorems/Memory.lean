import NovaOs.Io.Lemmas.Memory
import NovaOs.Io.Theorems.BackLinks

/-!
# When the registry never touches a dead device

The registry keeps what it is given: its devices must stay allocated until they are unregistered or the stack is shut
down, and the shutdown frees them. What a dead device holds is seen by no call.
-/

namespace NovaOs.Io

open Lib

variable {pool : Nat} {m m' : IoMemory pool} {io io' : IoStack pool} {devs : List (DevPtr pool)} {op : IoOp pool}
  {answer : IoAnswer pool}

/-! ## What a call touches -/

theorem RegistryIs.mem_of_walked (h : RegistryIs io devs) {p : DevPtr pool → Bool} {dev : DevPtr pool}
    (hdev : dev ∈ io.walked p) : dev ∈ devs := mem_of_visited h.linked hdev

theorem RegistryIs.mem_of_next (h : RegistryIs io devs) {dev after : DevPtr pool} (hdev : dev ∈ devs)
    (hafter : io.next dev = some after) : after ∈ devs := by
  obtain ⟨ks, rest, rfl⟩ := List.append_of_mem hdev
  have hhead : rest.head? = some after := by rw [← h.linked.next_eq_head?, hafter]
  exact List.mem_append_right ks (List.mem_cons_of_mem dev (List.mem_of_head? hhead))

/-- A call touches registered devices, and the one that it registers. -/
theorem RegistryIs.mem_of_touched (h : RegistryIs io devs) {dev : DevPtr pool} (hdev : dev ∈ io.touched op) :
    dev ∈ devs ∨ op = .register (some dev) := by
  cases op with
  | init => cases hdev
  | register dev? =>
      cases dev? with
      | none => cases hdev
      | some new =>
          rw [IoStack.touched] at hdev
          split at hdev
          · exact .inr (by rw [List.mem_singleton.mp hdev])
          · rcases List.mem_cons.mp hdev with rfl | hhead
            · exact .inr rfl
            · refine .inl ?_
              cases devs with
              | nil =>
                  have hnone : io.registry = none := h.linked
                  rw [hnone] at hhead
                  cases hhead
              | cons first devs =>
                  rw [h.linked.1, Option.toList_some, List.mem_singleton] at hhead
                  rw [hhead]
                  exact List.mem_cons_self
  | unregister dev? =>
      cases dev? with
      | none => cases hdev
      | some old =>
          rcases List.mem_append.mp hdev with hdev | hdev
          · exact .inl (h.mem_of_walked hdev)
          · split at hdev
            · next hold => exact .inl (h.mem_of_next (h.mem_of_walked hold) (Option.mem_toList.mp hdev))
            · cases hdev
  | find path? =>
      cases path? with
      | none => cases hdev
      | some path => exact .inl (h.mem_of_walked hdev)
  | getByMajorMinor major minor => exact .inl (h.mem_of_walked hdev)

/-! ## What keeps the registry sound -/

/-- The registry is a list of devices that are allocated. -/
def Sound (st : Option (IoMemory pool)) : Prop :=
  ∃ m devs, st = some m ∧ Linked m.io.next m.io.registry devs ∧ ∀ dev ∈ devs, dev ∈ m.live

/-- Its caller gives the registry a device that is dead or that it has, or frees one that is dead or that it has. -/
inductive Careless (m : IoMemory pool) : MemoryOp pool → Prop where
  | registerDead (dev) (hdead : dev ∉ m.live) : Careless m (.call (.register (some dev)))
  | registerAgain (dev) (hnamed : (m.io.name dev).bytes ≠ []) (hregistered : m.io.InRegistry dev) :
      Careless m (.call (.register (some dev)))
  | freeDead (dev) (hdead : dev ∉ m.live) : Careless m (.free dev)
  | freeRegistered (dev) (hregistered : m.io.InRegistry dev) : Careless m (.free dev)

/-- An allocation gives an object that is not allocated. -/
def AllocatesDead (st : Option (IoMemory pool)) (op : MemoryOp pool) : Prop :=
  ∀ m dev device, st = some m → op = .alloc dev device → dev ∉ m.live

structure MemoryInv (m : IoMemory pool) (devs : List (DevPtr pool)) : Prop where
  registry : RegistryIs m.io devs
  live : ∀ dev ∈ devs, dev ∈ m.live

theorem MemoryInv.start (devices : DevPtr pool → NovaDevice pool) : MemoryInv (memoryStart devices) [] where
  registry := .start devices
  live := by simp

theorem MemoryInv.sound (h : MemoryInv m devs) : Sound (some m) := ⟨m, devs, rfl, h.registry.linked, h.live⟩

theorem MemoryInv.alloc (h : MemoryInv m devs) {dev : DevPtr pool} (hdead : dev ∉ m.live) (device : NovaDevice pool) :
    MemoryInv ⟨m.io.setDevice dev device, insert dev m.live⟩ devs where
  registry := by
    refine ⟨h.registry.linked.congr fun d hd => ?_, h.registry.nodup, h.registry.free⟩
    have hne : d ≠ dev := by
      rintro rfl
      exact hdead (h.live d hd)
    simp only [IoStack.next, IoStack.setDevice, Function.update_of_ne hne]
  live d hd := Finset.mem_insert_of_mem (h.live d hd)

theorem MemoryInv.free (h : MemoryInv m devs) {dev : DevPtr pool} (hdev : dev ∉ devs) :
    MemoryInv { m with live := m.live.erase dev } devs where
  registry := h.registry
  live d hd := by
    refine Finset.mem_erase.mpr ⟨?_, h.live d hd⟩
    rintro rfl
    exact hdev hd

/-- A call that is given no dead device touches none. -/
theorem MemoryInv.call_eq (h : MemoryInv m devs) (hlive : ∀ dev, op = .register (some dev) → dev ∈ m.live) :
    memoryStep m (.call op) = (ioStep m.io op).map fun r => (some r.1, { m with io := r.2 }) := by
  refine if_pos fun dev hdev => ?_
  rcases h.registry.mem_of_touched hdev with hdev | hop
  · exact h.live dev hdev
  · exact hlive dev hop

theorem MemoryInv.effect (h : MemoryInv m devs) (heffect : Effect m.io devs op answer io')
    (hcareful : ¬ Careless m (.call op)) : ∃ devs', MemoryInv { m with io := io' } devs' := by
  cases heffect with
  | clear hop hfresh hnext =>
      rw [hnext]
      exact ⟨[], h.registry.clear, by simp⟩
  | register dev hregisters hanswer hregistered =>
      obtain ⟨rfl, hnamed⟩ := hregisters
      have hdev : dev ∉ devs := fun hdev => hcareful (.registerAgain dev hnamed (h.registry.inRegistry_iff.mpr hdev))
      refine ⟨dev :: devs, h.registry.register hregistered hdev, fun d hd => ?_⟩
      rcases List.mem_cons.mp hd with rfl | hd
      · by_contra hdead
        exact hcareful (.registerDead d hdead)
      · exact h.live d hd
  | unregister dev hop hdev hanswer hregistry hrelinked hmajor =>
      exact ⟨devs.erase dev, hregistry, fun d hd => h.live d (List.mem_of_mem_erase hd)⟩
  | same hinit hregister hanswer hnext =>
      rw [hnext]
      exact ⟨devs, h⟩

/-- The shutdown of a stack that was initialized frees the registered devices. -/
theorem MemoryInv.shutdown_eq (h : MemoryInv m devs) (hinit : m.io.initialized = true) :
    novaIoShutdown m = some (0, ⟨{ m.io with registry := none, initialized := false }, m.live \ devs.toFinset⟩) := by
  have hchain := freeChain_eq_some h.registry.linked h.registry.nodup h.registry.nodup.length_le_card h.live
  have hfree := h.registry.free
  rw [novaIoShutdown, if_pos hinit, lockRegistry_of_free hfree, Option.bind_some]
  have hlocked : freeChain (IoStack.next { m.io with registryLock := true }) (Fintype.card (DevPtr pool)) m.io.registry
      m.live = some (m.live \ devs.toFinset) := hchain
  rw [hlocked, Option.map_some, unlockRegistry, ← hfree]

theorem MemoryInv.next (h : MemoryInv m devs) {op : MemoryOp pool} (halloc : AllocatesDead (some m) op)
    (hcareful : ¬ Careless m op) :
    ∃ answer m' devs', memoryStep m op = some (answer, m') ∧ MemoryInv m' devs' := by
  cases op with
  | alloc dev device => exact ⟨_, _, devs, rfl, h.alloc (halloc m dev device rfl rfl) device⟩
  | free dev =>
      have hlive : dev ∈ m.live := by
        by_contra hdead
        exact hcareful (.freeDead dev hdead)
      have hdev : dev ∉ devs := fun hdev => hcareful (.freeRegistered dev (h.registry.inRegistry_iff.mpr hdev))
      exact ⟨_, _, devs, if_pos hlive, h.free hdev⟩
  | call op =>
      obtain ⟨answer, io', hstep, heffect⟩ := h.registry.effect op
      obtain ⟨devs', hinv⟩ := h.effect heffect hcareful
      refine ⟨some answer, _, devs', ?_, hinv⟩
      rw [h.call_eq fun dev hop => ?_, hstep, Option.map_some]
      by_contra hdead
      rw [hop] at hcareful
      exact hcareful (.registerDead dev hdead)
  | shutdown =>
      cases hinit : m.io.initialized with
      | false => exact ⟨_, _, devs, by rw [memoryStep, novaIoShutdown, hinit]; rfl, h⟩
      | true =>
          refine ⟨some (.int 0), ⟨{ m.io with registry := none, initialized := false }, m.live \ devs.toFinset⟩, [], ?_,
            ⟨rfl, List.nodup_nil, h.registry.free⟩, by simp⟩
          rw [memoryStep, h.shutdown_eq hinit]
          rfl

/-- A careless call touches a dead device, or leaves one in the registry, or makes the registry a ring. -/
theorem MemoryInv.not_sound (h : MemoryInv m devs) {op : MemoryOp pool} (hcareless : Careless m op) :
    ¬ Sound ((memoryMachine pool).next (some m) op) := by
  have hstep : (memoryMachine pool).next (some m) op = (memoryStep m op).map Prod.snd := rfl
  rw [hstep]
  rintro ⟨m', devs', hm', hlinked, hlive⟩
  obtain ⟨r, hr, rfl⟩ := Option.map_eq_some_iff.mp hm'
  cases hcareless with
  | registerDead dev hdead =>
      have htouched : dev ∈ m.io.touched (.register (some dev)) := by
        rw [IoStack.touched]
        split <;> simp
      rw [memoryStep, if_neg fun hall => hdead (hall dev htouched)] at hr
      cases hr
  | registerAgain dev hnamed hregistered =>
      have hregisters : m.io.Registers (.register (some dev)) dev := ⟨rfl, hnamed⟩
      rcases novaDeviceRegister_cases h.registry.free (some dev) with
        ⟨hrefused, _⟩ | ⟨dev', io', hregisters', hcall, hregistered'⟩
      · exact hrefused dev hregisters
      · obtain rfl := hregisters.unique hregisters'
        rw [memoryStep, ioStep, hcall] at hr
        split at hr
        · cases hr
          have hdev := h.registry.inRegistry_iff.mp hregistered
          exact h.registry.register_again hregistered' hdev devs' hlinked
        · cases hr
  | freeDead dev hdead =>
      rw [memoryStep, if_neg hdead] at hr
      cases hr
  | freeRegistered dev hregistered =>
      have hdev : dev ∈ devs := h.registry.inRegistry_iff.mp hregistered
      rw [memoryStep, if_pos (h.live dev hdev)] at hr
      cases hr
      obtain rfl := hlinked.unique h.registry.linked
      exact absurd (hlive dev hdev) (Finset.notMem_erase dev m.live)

/-- Nobody registers a device that is dead or registered, nobody frees one that is, and no allocation gives a live one. -/
def Proper (st : Option (IoMemory pool)) (op : MemoryOp pool) : Prop :=
  AllocatesDead st op ∧ ∀ m, st = some m → ¬ Careless m op

def MemoryKept (st : Option (IoMemory pool)) : Prop := ∃ m devs, st = some m ∧ MemoryInv m devs

theorem memoryKept_start (devices : DevPtr pool → NovaDevice pool) : MemoryKept (some (memoryStart devices)) :=
  ⟨_, [], rfl, .start devices⟩

theorem MemoryKept.next {st : Option (IoMemory pool)} {op : MemoryOp pool} (h : MemoryKept st)
    (halloc : AllocatesDead st op) (hcareful : ∀ m, st = some m → ¬ Careless m op) :
    MemoryKept ((memoryMachine pool).next st op) := by
  obtain ⟨m, devs, rfl, h⟩ := h
  obtain ⟨answer, m', devs', hstep, h'⟩ := h.next halloc (hcareful m rfl)
  exact ⟨m', devs', Machine.ofPartial_next hstep, h'⟩

/-- In a run in which every allocation gives an object that was dead, the registry is a list of allocated devices and no
call touches a dead one, in every state, exactly when nobody registers a device that is dead or registered, and nobody
frees one that is. -/
theorem registry_sound_iff (devices : DevPtr pool → NovaDevice pool) {ops : List (MemoryOp pool)}
    (halloc : (memoryMachine pool).Along AllocatesDead (some (memoryStart devices)) ops) :
    (memoryMachine pool).Always Sound (some (memoryStart devices)) ops ↔
      (memoryMachine pool).Along (fun st op => ∀ m, st = some m → ¬ Careless m op) (some (memoryStart devices)) ops := by
  refine Machine.always_iff_along_of ?_ (fun st op h => h.next) ?_ (memoryKept_start devices) halloc
  · rintro st ⟨m, devs, rfl, h⟩
    exact h.sound
  · rintro st op ⟨m, devs, rfl, h⟩ halloc hcareless hsound
    refine hcareless fun m₀ hm₀ hcareless₀ => ?_
    cases hm₀
    exact h.not_sound hcareless₀ hsound

/-- A disk is allocated and registered. -/
def diskRegistered : List (MemoryOp 1) :=
  [.alloc (Fin.last 0) (disk (Fin.last 0)), .call .init, .call (.register (some (Fin.last 0)))]

theorem allocatesDead_diskRegistered :
    (memoryMachine 1).Along AllocatesDead (some (memoryStart disk)) diskRegistered := by
  refine ⟨?_, ?_, ?_, trivial⟩
  · intro m dev device hm hop
    cases hm
    simp [memoryStart]
  · intro m dev device hm hop
    cases hop
  · intro m dev device hm hop
    cases hop

theorem registry_sound_iff_diskRegistered :
    (memoryMachine 1).Always Sound (some (memoryStart disk)) diskRegistered ↔
      (memoryMachine 1).Along (fun st op => ∀ m, st = some m → ¬ Careless m op) (some (memoryStart disk))
        diskRegistered :=
  registry_sound_iff disk allocatesDead_diskRegistered

/-! ## What a shutdown frees -/

/-- A shutdown after any proper run frees the devices in the registry, each once, when the stack was initialized, and
nothing otherwise. -/
theorem shutdown_frees_registered (devices : DevPtr pool → NovaDevice pool) {ops : List (MemoryOp pool)}
    (hproper : (memoryMachine pool).Along Proper (some (memoryStart devices)) ops) :
    ∃ m m', (memoryMachine pool).exec (some (memoryStart devices)) ops = some m ∧ novaIoShutdown m = some (0, m') ∧
      (∀ dev, dev ∈ m'.live ↔ dev ∈ m.live ∧ ¬ (m.io.initialized = true ∧ m.io.InRegistry dev)) ∧
      m'.io.initialized = false := by
  have hkept := Machine.always_of_along (fun st op h hproper => MemoryKept.next h hproper.1 hproper.2)
    (memoryKept_start devices) hproper
  obtain ⟨m, devs, hexec, h⟩ := hkept.exec
  cases hinit : m.io.initialized with
  | false =>
      refine ⟨m, m, hexec, by rw [novaIoShutdown, hinit]; rfl, fun dev => ?_, hinit⟩
      simp [hinit]
  | true =>
      refine ⟨m, _, hexec, h.shutdown_eq hinit, fun dev => ?_, rfl⟩
      simp [hinit, h.registry.inRegistry_iff]

theorem shutdown_frees_registered_disk :
    ∃ m m', (memoryMachine 1).exec (some (memoryStart disk)) diskRegistered = some m ∧
      novaIoShutdown m = some (0, m') ∧
      (∀ dev, dev ∈ m'.live ↔ dev ∈ m.live ∧ ¬ (m.io.initialized = true ∧ m.io.InRegistry dev)) ∧
      m'.io.initialized = false := by
  refine shutdown_frees_registered disk (allocatesDead_diskRegistered.and ⟨?_, ?_, ?_, trivial⟩)
  · intro m hm hcareless
    cases hcareless
  · intro m hm hcareless
    cases hcareless
  · intro m hm hcareless
    cases hm
    cases hcareless with
    | registerDead dev hdead => exact hdead (by decide)
    | registerAgain dev hnamed hregistered =>
        obtain ⟨devs, hlinked, hdev⟩ := hregistered
        cases devs with
        | nil => cases hdev
        | cons first devs =>
            have hempty : (none : Option (DevPtr 1)) = some first := hlinked.1
            cases hempty

/-! ## What dead devices hold -/

def zeroDevice : NovaDevice pool where
  name := .ofString ""
  path := .ofString ""
  type := .block
  major := 0
  minor := 0
  blockOps := none
  next := none
  prev := none

/-- The state without what its dead devices hold. -/
def IoMemory.forgetDead (m : IoMemory pool) : IoMemory pool := ⟨m.io.overlay m.live fun _ => zeroDevice, m.live⟩

theorem IoMemory.forgetDead_overlay (io : IoStack pool) {live live' : Finset (DevPtr pool)} (hle : live' ⊆ live)
    (others : DevPtr pool → NovaDevice pool) :
    IoMemory.forgetDead ⟨io.overlay live others, live'⟩ = IoMemory.forgetDead ⟨io, live'⟩ := by
  have hdevices : (fun dev => if dev ∈ live' then (if dev ∈ live then io.devices dev else others dev) else zeroDevice) =
      fun dev => if dev ∈ live' then io.devices dev else zeroDevice := by
    funext dev
    by_cases hdev : dev ∈ live'
    · simp [hdev, hle hdev]
    · simp [hdev]
  simp only [IoMemory.forgetDead, IoStack.overlay, hdevices]

/-- States that look alike differ in what their dead devices hold. -/
theorem IoMemory.eq_overlay_of_forgetDead (h : m.forgetDead = m'.forgetDead) :
    m' = ⟨m.io.overlay m.live m'.io.devices, m.live⟩ := by
  obtain ⟨io, live⟩ := m
  obtain ⟨io', live'⟩ := m'
  obtain rfl : live = live' := congrArg IoMemory.live h
  have hio : io.overlay live (fun _ => zeroDevice) = io'.overlay live (fun _ => zeroDevice) := congrArg IoMemory.io h
  obtain ⟨hdevices, hstatics⟩ := (IoStack.mk.injEq ..).mp hio
  obtain ⟨devices', registry', nextMajor', initialized', registryLock'⟩ := io'
  obtain ⟨rfl, rfl, rfl, rfl⟩ := hstatics
  have hsame : (fun dev => if dev ∈ live then io.devices dev else devices' dev) = devices' := by
    funext dev
    have hdev := congrFun hdevices dev
    by_cases hlive : dev ∈ live
    · simpa [hlive] using hdev
    · simp [hlive]
  simp only [IoStack.overlay, hsame]

theorem novaIoShutdown_eq (m : IoMemory pool) :
    novaIoShutdown m =
      if m.io.initialized then
        if m.io.registryLock then none
        else
          (freeChain m.io.next (Fintype.card (DevPtr pool)) m.io.registry m.live).map fun live =>
            (0, ⟨{ m.io with registry := none, registryLock := false, initialized := false }, live⟩)
      else some (0, m) := by
  rw [novaIoShutdown, lockRegistry]
  split
  · split <;> rfl
  · rfl

/-- The shutdown reads the pointers of the devices that it frees while they are allocated. -/
theorem novaIoShutdown_overlay (m : IoMemory pool) (others : DevPtr pool → NovaDevice pool) :
    (novaIoShutdown ⟨m.io.overlay m.live others, m.live⟩).map (Prod.map id IoMemory.forgetDead) =
      (novaIoShutdown m).map (Prod.map id IoMemory.forgetDead) := by
  have hfree : freeChain (m.io.overlay m.live others).next (Fintype.card (DevPtr pool)) m.io.registry m.live =
      freeChain m.io.next (Fintype.card (DevPtr pool)) m.io.registry m.live :=
    freeChain_congr fun dev hdev => IoStack.next_overlay hdev
  have hinit : (m.io.overlay m.live others).initialized = m.io.initialized := rfl
  have hlock : (m.io.overlay m.live others).registryLock = m.io.registryLock := rfl
  have hregistry : (m.io.overlay m.live others).registry = m.io.registry := rfl
  simp only [novaIoShutdown_eq, hinit, hlock, hregistry, hfree]
  split
  · split
    · rfl
    · cases hchain : freeChain m.io.next (Fintype.card (DevPtr pool)) m.io.registry m.live with
      | none => rfl
      | some live =>
          have hforget := IoMemory.forgetDead_overlay
            { m.io with registry := none, registryLock := false, initialized := false } (freeChain_subset hchain) others
          exact congrArg (fun m => some ((0 : Int), m)) hforget
  · have hforget := IoMemory.forgetDead_overlay m.io (Finset.Subset.refl m.live) others
    exact congrArg (fun m => some ((0 : Int), m)) hforget

/-- No call sees what dead devices hold. -/
theorem memoryStep_overlay (m : IoMemory pool) (others : DevPtr pool → NovaDevice pool) (op : MemoryOp pool) :
    (memoryStep ⟨m.io.overlay m.live others, m.live⟩ op).map (Prod.map id IoMemory.forgetDead) =
      (memoryStep m op).map (Prod.map id IoMemory.forgetDead) := by
  cases op with
  | alloc dev device =>
      have hgiven : (m.io.overlay m.live others).setDevice dev device =
          (m.io.setDevice dev device).overlay (insert dev m.live) others := by
        have hdevices : Function.update (fun d => if d ∈ m.live then m.io.devices d else others d) dev device =
            fun d => if d ∈ insert dev m.live then Function.update m.io.devices dev device d else others d := by
          funext d
          by_cases hd : d = dev
          · simp [hd]
          · simp [hd]
        simp only [IoStack.setDevice, IoStack.overlay, hdevices]
      have hforget := IoMemory.forgetDead_overlay (m.io.setDevice dev device) (Finset.Subset.refl (insert dev m.live))
        others
      rw [← hgiven] at hforget
      exact congrArg (fun m => some ((none : Option (IoAnswer pool)), m)) hforget
  | free dev =>
      simp only [memoryStep]
      split
      · have hforget := IoMemory.forgetDead_overlay m.io (Finset.erase_subset dev m.live) others
        exact congrArg (fun m => some ((none : Option (IoAnswer pool)), m)) hforget
      · rfl
  | call op =>
      -- The devices that the call touches are the same in both states.
      have hchecked : (∀ dev ∈ (m.io.overlay m.live others).touched op, dev ∈ m.live) ↔
          ∀ dev ∈ m.io.touched op, dev ∈ m.live := by
        constructor
        · intro h
          have hback := @touched_overlay _ (m.io.overlay m.live others) op m.live m.io.devices h
          rw [IoStack.overlay_overlay] at hback
          rwa [← hback] at h
        · intro h
          rwa [touched_overlay h]
      simp only [memoryStep, hchecked]
      split
      · next h =>
          rw [ioStep_overlay h]
          cases ioStep m.io op with
          | none => rfl
          | some r =>
              have hforget := IoMemory.forgetDead_overlay r.2 (Finset.Subset.refl m.live) others
              exact congrArg (fun m => some (some r.1, m)) hforget
      · rfl
  | shutdown =>
      have hshutdown := novaIoShutdown_overlay m others
      rw [memoryStep, memoryStep, Option.map_map, Option.map_map]
      cases hcall : novaIoShutdown m with
      | none =>
          rw [hcall, Option.map_none, Option.map_eq_none_iff] at hshutdown
          rw [hshutdown]
      | some r =>
          rw [hcall, Option.map_some] at hshutdown
          obtain ⟨r', hr', he⟩ := Option.map_eq_some_iff.mp hshutdown
          obtain ⟨hresult, hforget⟩ := Prod.mk.inj he
          rw [hr']
          exact congrArg₂ (fun result m => some (some (IoAnswer.int result), m)) hresult hforget

/-- In two runs of the same calls from states that differ in what dead devices hold, the calls answer the same, and the
states after them differ in what dead devices hold. -/
theorem dead_devices_unseen (m m' : IoMemory pool) (halike : m.forgetDead = m'.forgetDead)
    (ops : List (MemoryOp pool)) :
    ((memoryMachine pool).trace (some m) ops).map Prod.snd = ((memoryMachine pool).trace (some m') ops).map Prod.snd ∧
      ((memoryMachine pool).exec (some m) ops).map IoMemory.forgetDead =
        ((memoryMachine pool).exec (some m') ops).map IoMemory.forgetDead := by
  have hrespects : Machine.RespectsView memoryStep (@IoMemory.forgetDead pool) id := by
    rintro m m' op op' halike rfl
    rw [IoMemory.eq_overlay_of_forgetDead halike]
    exact (memoryStep_overlay m m'.io.devices op).symm
  have hstart : (some m).map IoMemory.forgetDead = (some m').map IoMemory.forgetDead := congrArg some halike
  exact hrespects.run hstart rfl

theorem dead_devices_unseen_disk :
    ((memoryMachine 1).trace (some (memoryStart disk)) diskRegistered).map Prod.snd =
        ((memoryMachine 1).trace (some (memoryStart fun _ => zeroDevice)) diskRegistered).map Prod.snd ∧
      ((memoryMachine 1).exec (some (memoryStart disk)) diskRegistered).map IoMemory.forgetDead =
        ((memoryMachine 1).exec (some (memoryStart fun _ => zeroDevice)) diskRegistered).map IoMemory.forgetDead :=
  dead_devices_unseen _ _ (by simp [IoMemory.forgetDead, IoStack.overlay, memoryStart, programStart]) diskRegistered

end NovaOs.Io
