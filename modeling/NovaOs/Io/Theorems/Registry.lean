import NovaOs.Io.Lemmas.Registry

/-!
# The registry over whole runs

When every walk over the registry ends, when the numbers of the registered devices tell them apart, and when each of
them is found by its path. The devices whose registration succeeded are followed through the run, with those that the
registry gave their number.
-/

namespace NovaOs.Io

open Lib

variable {pool : Nat} {io io' : IoStack pool} {devs : List (DevPtr pool)} {op : IoOp pool} {answer : IoAnswer pool}

/-! ## Walks over the registry -/

/-- The head of the registry leads to finitely many devices, none twice, and every call ends with the lock free. -/
structure Traversable (io : IoStack pool) : Prop where
  chain : ∃ devs, Linked io.next io.registry devs ∧ devs.Nodup
  ends : ∀ op, ∃ answer io', ioStep io op = some (answer, io') ∧ io'.registryLock = false

/-- A device is registered that is in the registry. -/
def RegistersAgain (io : IoStack pool) (op : IoOp pool) : Prop :=
  ∃ dev devs, io.Registers op dev ∧ Linked io.next io.registry devs ∧ dev ∈ devs

theorem RegistryIs.free_next (h : RegistryIs io devs) (heffect : Effect io devs op answer io') :
    io'.registryLock = false := by
  cases heffect with
  | clear hop hfresh hnext =>
      rw [hnext]
      exact h.free
  | register dev hregisters hanswer hregistered => exact hregistered.free
  | unregister dev hop hdev hanswer hregistry hrelinked hmajor => exact hregistry.free
  | same hinit hregister hanswer hnext =>
      rw [hnext]
      exact h.free

theorem RegistryIs.traversable (h : RegistryIs io devs) : Traversable io where
  chain := ⟨devs, h.linked, h.nodup⟩
  ends op := by
    obtain ⟨answer, io', hstep, heffect⟩ := h.effect op
    exact ⟨answer, io', hstep, h.free_next heffect⟩

theorem RegistryIs.start (devices : DevPtr pool → NovaDevice pool) : RegistryIs (programStart devices) [] :=
  ⟨rfl, List.nodup_nil, rfl⟩

theorem RegistryIs.clear (h : RegistryIs io devs) :
    RegistryIs { io with registry := none, nextMajor := 1, initialized := true } [] :=
  ⟨rfl, List.nodup_nil, h.free⟩

theorem RegistryIs.registersAgain_iff (h : RegistryIs io devs) :
    RegistersAgain io op ↔ ∃ dev, io.Registers op dev ∧ dev ∈ devs := by
  constructor
  · rintro ⟨dev, devs', hregisters, hlinked, hdev⟩
    rw [hlinked.unique h.linked] at hdev
    exact ⟨dev, hregisters, hdev⟩
  · rintro ⟨dev, hregisters, hdev⟩
    exact ⟨dev, devs, hregisters, h.linked, hdev⟩

theorem IoStack.Registers.unique {dev dev' : DevPtr pool} (h : io.Registers op dev) (h' : io.Registers op dev') :
    dev' = dev := by
  have hop := h.1.symm.trans h'.1
  simpa [eq_comm] using hop

/-- A call keeps the registry a list, unless it registers a device again. -/
theorem RegistryIs.next (h : RegistryIs io devs) (heffect : Effect io devs op answer io')
    (honce : ¬ RegistersAgain io op) : ∃ devs', RegistryIs io' devs' := by
  cases heffect with
  | clear hop hfresh hnext =>
      rw [hnext]
      exact ⟨[], h.clear⟩
  | register dev hregisters hanswer hregistered =>
      exact ⟨dev :: devs, h.register hregistered fun hdev => honce ⟨dev, devs, hregisters, h.linked, hdev⟩⟩
  | unregister dev hop hdev hanswer hregistry hrelinked hmajor => exact ⟨devs.erase dev, hregistry⟩
  | same hinit hregister hanswer hnext =>
      rw [hnext]
      exact ⟨devs, h⟩

theorem RegistryIs.not_traversable (h : RegistryIs io devs) (heffect : Effect io devs op answer io')
    (hagain : RegistersAgain io op) : ¬ Traversable io' := by
  obtain ⟨dev, hregisters, hdev⟩ := h.registersAgain_iff.mp hagain
  cases heffect with
  | clear hop hfresh hnext => simp [hop, IoStack.Registers] at hregisters
  | register dev' hregisters' hanswer hregistered =>
      obtain rfl := hregisters.unique hregisters'
      rintro ⟨⟨devs', hlinked, _⟩, _⟩
      exact h.register_again hregistered hdev devs' hlinked
  | unregister dev' hop hdev' hanswer hregistry hrelinked hmajor => simp [hop, IoStack.Registers] at hregisters
  | same hinit hregister hanswer hnext => exact absurd hregisters (hregister dev)

def RegistryKept (st : Option (IoStack pool)) : Prop := ∃ io devs, st = some io ∧ RegistryIs io devs

/-- In a run from the start of the program, every walk over the registry ends, in every state, exactly when no device
is registered while it is in the registry. -/
theorem registry_traversable_iff (devices : DevPtr pool → NovaDevice pool) (ops : List (IoOp pool)) :
    (ioMachine pool).Always (fun st => ∃ io, st = some io ∧ Traversable io) (some (programStart devices)) ops ↔
      (ioMachine pool).Along (fun st op => ∀ io, st = some io → ¬ RegistersAgain io op)
        (some (programStart devices)) ops := by
  have hstart : RegistryKept (some (programStart devices)) := ⟨_, [], rfl, .start devices⟩
  refine Machine.always_iff_along ?_ ?_ ?_ hstart
  · rintro st ⟨io, devs, rfl, h⟩
    exact ⟨io, rfl, h.traversable⟩
  · rintro st op ⟨io, devs, rfl, h⟩ honce
    obtain ⟨answer, io', hstep, heffect⟩ := h.effect op
    obtain ⟨devs', h'⟩ := h.next heffect (honce io rfl)
    exact ⟨io', devs', Machine.ofPartial_next hstep, h'⟩
  · rintro st op ⟨io, devs, rfl, h⟩ hagain ⟨io'', hnext, htraversable⟩
    obtain ⟨answer, io', hstep, heffect⟩ := h.effect op
    obtain rfl : io' = io'' := Option.some.inj ((Machine.ofPartial_next hstep).symm.trans hnext)
    refine hagain fun io₀ hio₀ hregisters => ?_
    cases hio₀
    exact h.not_traversable heffect hregisters htraversable

/-- One disk, that was never registered. -/
def disk : DevPtr 1 → NovaDevice 1 := fun _ =>
  { name := .ofString "disk", path := .ofString "/dev/disk", type := .block, major := 0, minor := 0, blockOps := none
    next := none, prev := none }

/-- A disk that is registered twice points to itself, and a search for another path does not end. -/
theorem disk_registered_twice :
    ¬ (ioMachine 1).Always (fun st => ∃ io, st = some io ∧ Traversable io) (some (programStart disk))
      [.register (some 0), .register (some 0)] := by
  intro h
  obtain ⟨io, hio, htraversable⟩ := h.2.2
  have hhangs : ((((ioMachine 1).exec (some (programStart disk)) [.register (some 0), .register (some 0)]).bind
      fun io => ioStep io (.find (some (.ofString "/dev/tape")))).isNone) = true := by
    decide +kernel
  obtain ⟨answer, io', hstep, _⟩ := htraversable.ends (.find (some (.ofString "/dev/tape")))
  have hexec : (ioMachine 1).exec (some (programStart disk)) [.register (some 0), .register (some 0)] = some io := hio
  rw [hexec, Option.bind_some, hstep] at hhangs
  cases hhangs

/-! ## The devices that are registered -/

/-- The devices whose last registration succeeded and that were not unregistered since, and the devices that got their
major number from the registry. -/
structure Record (pool : Nat) where
  registered : Set (DevPtr pool)
  numbered : Set (DevPtr pool)

def record (st : Option (IoStack pool)) (op : IoOp pool) (answer : Option (IoAnswer pool)) (r : Record pool) :
    Record pool :=
  match st, op, answer with
  | some io, .register (some dev), some (.int 0) =>
      { registered := insert dev r.registered
        numbered := {d | d ∈ r.numbered ∨ d = dev ∧ (io.devices dev).major = 0} }
  | _, .unregister (some dev), some (.int 0) => { r with registered := r.registered \ {dev} }
  | _, _, _ => r

/-- No device is registered that is registered already. -/
def RegistersOnce (r : Record pool) (op : IoOp pool) : Prop := ∀ dev, op = .register (some dev) → dev ∉ r.registered

/-- The registry is cleared while a device is registered. -/
def Forgets (io : IoStack pool) (r : Record pool) (op : IoOp pool) : Prop :=
  op = .init ∧ io.initialized = false ∧ r.registered.Nonempty

structure RecordIs (io : IoStack pool) (r : Record pool) (devs : List (DevPtr pool)) : Prop where
  registry : RegistryIs io devs
  registered : ∀ dev, dev ∈ r.registered ↔ dev ∈ devs

/-- What a call makes of the registry and the record, when no device is registered twice. -/
inductive RecordEffect (io : IoStack pool) (r : Record pool) (devs : List (DevPtr pool)) (op : IoOp pool)
    (io' : IoStack pool) (r' : Record pool) : Prop where
  | clear (hop : op = .init) (hfresh : io.initialized = false) (hregistry : RegistryIs io' []) (hrecord : r' = r)
      (hdevices : io'.devices = io.devices) (hmajor : io'.nextMajor = 1)
  | register (dev) (hregisters : io.Registers op dev) (hdev : dev ∉ devs) (hregistered : Registered io dev io')
      (hrecord : RecordIs io' r' (dev :: devs))
      (hnumbered : ∀ d, d ∈ r'.numbered ↔ d ∈ r.numbered ∨ d = dev ∧ (io.devices dev).major = 0)
  | unregister (dev) (hop : op = .unregister (some dev)) (hrecord : RecordIs io' r' (devs.erase dev))
      (hrelinked : io.Relinked io') (hmajor : io'.nextMajor = io.nextMajor) (hnumbered : r'.numbered = r.numbered)
  | same (hinit : op = .init → io.initialized = true) (hregister : ∀ dev, ¬ io.Registers op dev) (hnext : io' = io)
      (hrecord : r' = r)

variable {r r' : Record pool}

theorem record_same (hanswer : ∀ dev, op = .register (some dev) ∨ op = .unregister (some dev) → answer = .int (-1)) :
    record (some io) op (some answer) r = r := by
  unfold record
  split
  · next hzero => cases (hanswer _ (.inl rfl)).symm.trans (Option.some.inj hzero)
  · next hzero => cases (hanswer _ (.inr rfl)).symm.trans (Option.some.inj hzero)
  · rfl

theorem mem_record_registered {st : Option (IoStack pool)} {answer : Option (IoAnswer pool)} {dev : DevPtr pool}
    (h : dev ∈ (record st op answer r).registered) : dev ∈ r.registered ∨ op = .register (some dev) := by
  unfold record at h
  split at h
  · rcases h with rfl | h
    · exact .inr rfl
    · exact .inl h
  · exact .inl h.1
  · exact .inl h

theorem RecordIs.effect (h : RecordIs io r devs) (honce : RegistersOnce r op) :
    ∃ io' r', ((ioMachine pool).withGhost record).next (some io, r) op = (some io', r') ∧
      RecordEffect io r devs op io' r' := by
  obtain ⟨answer, io', hstep, heffect⟩ := h.registry.effect op
  refine ⟨io', _, Machine.withGhost_ofPartial_next record hstep r, ?_⟩
  cases heffect with
  | clear hop hfresh hnext =>
      rw [hop, hnext]
      exact .clear rfl hfresh h.registry.clear rfl rfl rfl
  | register dev hregisters hanswer hregistered =>
      have hdev : dev ∉ devs := fun hmem => honce dev hregisters.1 ((h.registered dev).mpr hmem)
      refine .register dev hregisters hdev hregistered ⟨h.registry.register hregistered hdev, fun d => ?_⟩ fun d => ?_
      · rw [hregisters.1, hanswer, List.mem_cons, ← h.registered d]
        rfl
      · rw [hregisters.1, hanswer]
        rfl
  | unregister dev hop hdev hanswer hregistry hrelinked hmajor =>
      rw [hop, hanswer]
      refine .unregister dev rfl ⟨hregistry, fun d => ?_⟩ hrelinked hmajor rfl
      rw [h.registry.nodup.mem_erase_iff, ← h.registered d, and_comm]
      rfl
  | same hinit hregister hanswer hnext =>
      rw [record_same hanswer]
      exact .same hinit hregister hnext rfl

/-- In a run that registers no device twice at a time: when the calls meeting `P` keep an invariant of the registry and
the record that gives `Q`, and every other call breaks `Q` at once, the run keeps `Q` exactly when its calls meet `P`. -/
theorem recorded_iff {Q : IoStack pool → Record pool → Prop} {P : IoStack pool → Record pool → IoOp pool → Prop}
    {Inv : IoStack pool → Record pool → List (DevPtr pool) → Prop}
    (hrecord : ∀ {io r devs}, Inv io r devs → RecordIs io r devs) (hQ : ∀ {io r devs}, Inv io r devs → Q io r)
    (hkeep : ∀ {io r devs op io' r'}, Inv io r devs → RecordEffect io r devs op io' r' → P io r op →
      ∃ devs', Inv io' r' devs')
    (hbreak : ∀ {io r devs op io' r'}, Inv io r devs → RecordEffect io r devs op io' r' → ¬ P io r op → ¬ Q io' r')
    {devices : DevPtr pool → NovaDevice pool} (hstart : Inv (programStart devices) ⟨∅, ∅⟩ []) {ops : List (IoOp pool)}
    (honce : ((ioMachine pool).withGhost record).Along (fun s op => RegistersOnce s.2 op)
      (some (programStart devices), ⟨∅, ∅⟩) ops) :
    ((ioMachine pool).withGhost record).Always (fun s => ∃ io, s.1 = some io ∧ Q io s.2)
        (some (programStart devices), ⟨∅, ∅⟩) ops ↔
      ((ioMachine pool).withGhost record).Along (fun s op => ∀ io, s.1 = some io → P io s.2 op)
        (some (programStart devices), ⟨∅, ∅⟩) ops := by
  let Kept (s : Option (IoStack pool) × Record pool) : Prop := ∃ io devs, s.1 = some io ∧ Inv io s.2 devs
  have hkept : Kept (some (programStart devices), ⟨∅, ∅⟩) := ⟨_, [], rfl, hstart⟩
  refine Machine.always_iff_along_of ?_ ?_ ?_ hkept honce
  · rintro ⟨_, r⟩ ⟨io, devs, rfl, h⟩
    exact ⟨io, rfl, hQ h⟩
  · rintro ⟨_, r⟩ op ⟨io, devs, rfl, h⟩ honce hP
    obtain ⟨io', r', hnext, heffect⟩ := (hrecord h).effect honce
    obtain ⟨devs', h'⟩ := hkeep h heffect (hP io rfl)
    rw [hnext]
    exact ⟨io', devs', rfl, h'⟩
  · rintro ⟨_, r⟩ op ⟨io, devs, rfl, h⟩ honce hP ⟨io'', hio'', hmeets⟩
    obtain ⟨io', r', hnext, heffect⟩ := (hrecord h).effect honce
    rw [hnext] at hio'' hmeets
    cases hio''
    refine hP fun io₀ hio₀ => ?_
    cases hio₀
    exact not_not.mp fun hnot => hbreak h heffect hnot hmeets

/-! ## Finding the registered devices -/

/-- Each registered device is what a search for its path finds. -/
def FindsRegistered (io : IoStack pool) (r : Record pool) : Prop :=
  ∀ dev ∈ r.registered, ∃ io', novaDeviceFind io (some (io.path dev)) = some (some dev, io')

/-- A device is registered with the path of another. -/
def Shadows (io : IoStack pool) (r : Record pool) (op : IoOp pool) : Prop :=
  ∃ dev d, io.Registers op dev ∧ d ∈ r.registered ∧ io.path d = io.path dev

theorem RecordIs.findsRegistered_iff (h : RecordIs io r devs) :
    FindsRegistered io r ↔ ∀ dev ∈ devs, ∀ d ∈ devs, io.path d = io.path dev → d = dev := by
  rw [← find?_self_iff]
  refine forall_congr' fun dev => imp_congr (h.registered dev) ?_
  rw [h.registry.find]
  simp

/-- The registry is the record, and the registered devices have different paths. -/
structure PathsInv (io : IoStack pool) (r : Record pool) (devs : List (DevPtr pool)) : Prop where
  record : RecordIs io r devs
  paths : ∀ dev ∈ devs, ∀ d ∈ devs, io.path d = io.path dev → d = dev

theorem PathsInv.finds (h : PathsInv io r devs) : FindsRegistered io r := h.record.findsRegistered_iff.mpr h.paths

theorem PathsInv.start (devices : DevPtr pool → NovaDevice pool) : PathsInv (programStart devices) ⟨∅, ∅⟩ [] where
  record := ⟨.start devices, by simp⟩
  paths := by simp

theorem RegistryIs.not_findsRegistered (h : RegistryIs io []) (hregistered : r.registered.Nonempty) :
    ¬ FindsRegistered io r := by
  intro hfinds
  obtain ⟨dev, hdev⟩ := hregistered
  obtain ⟨io', hfound⟩ := hfinds dev hdev
  rw [h.find] at hfound
  simp at hfound

theorem PathsInv.next (h : PathsInv io r devs) (heffect : RecordEffect io r devs op io' r')
    (hkeeps : ¬ Forgets io r op ∧ ¬ Shadows io r op) : ∃ devs', PathsInv io' r' devs' := by
  cases heffect with
  | clear hop hfresh hregistry hrecord hdevices hmajor =>
      have hempty : ∀ dev, dev ∉ r.registered := fun dev hdev => hkeeps.1 ⟨hop, hfresh, dev, hdev⟩
      exact ⟨[], ⟨hregistry, by simpa [hrecord] using hempty⟩, by simp⟩
  | register dev hregisters hdev hregistered hrecord hnumbered =>
      have hother : ∀ d ∈ devs, io.path d ≠ io.path dev := fun d hd he =>
        hkeeps.2 ⟨dev, d, hregisters, (h.record.registered d).mpr hd, he⟩
      refine ⟨dev :: devs, hrecord, fun d₁ h₁ d₂ h₂ he => ?_⟩
      rw [hregistered.path, hregistered.path] at he
      rw [List.mem_cons] at h₁ h₂
      rcases h₁ with rfl | h₁ <;> rcases h₂ with rfl | h₂
      · rfl
      · exact absurd he (hother d₂ h₂)
      · exact absurd he.symm (hother d₁ h₁)
      · exact h.paths d₁ h₁ d₂ h₂ he
  | unregister dev hop hrecord hrelinked hmajor hnumbered =>
      refine ⟨devs.erase dev, hrecord, fun d₁ h₁ d₂ h₂ he => ?_⟩
      rw [hrelinked.path, hrelinked.path] at he
      exact h.paths d₁ (List.mem_of_mem_erase h₁) d₂ (List.mem_of_mem_erase h₂) he
  | same hinit hregister hnext hrecord =>
      rw [hnext, hrecord]
      exact ⟨devs, h⟩

/-- A registered device is lost when the registry is cleared, or hidden behind the new one. -/
theorem PathsInv.not_findsRegistered (h : PathsInv io r devs) (heffect : RecordEffect io r devs op io' r')
    (hloses : ¬ (¬ Forgets io r op ∧ ¬ Shadows io r op)) : ¬ FindsRegistered io' r' := by
  rw [← not_or, not_not] at hloses
  cases heffect with
  | clear hop hfresh hregistry hrecord hdevices hmajor =>
      rcases hloses with ⟨_, _, hregistered⟩ | ⟨dev, _, hregisters, _⟩
      · rw [hrecord]
        exact hregistry.not_findsRegistered hregistered
      · simp [hop, IoStack.Registers] at hregisters
  | register dev hregisters hdev hregistered hrecord hnumbered =>
      rcases hloses with ⟨hinit, _⟩ | ⟨dev', d, hregisters', hd, he⟩
      · simp [hinit, IoStack.Registers] at hregisters
      · obtain rfl := hregisters.unique hregisters'
        have hmem := (h.record.registered d).mp hd
        rw [hrecord.findsRegistered_iff]
        intro hpaths
        rw [← hregistered.path, ← hregistered.path dev'] at he
        have hsame := hpaths dev' List.mem_cons_self d (List.mem_cons_of_mem _ hmem) he
        rw [hsame] at hmem
        exact hdev hmem
  | unregister dev hop hrecord hrelinked hmajor hnumbered => simp [hop, Forgets, Shadows, IoStack.Registers] at hloses
  | same hinit hregister hnext hrecord =>
      rcases hloses with ⟨hop, hfresh, _⟩ | ⟨dev, _, hregisters, _⟩
      · simp [hinit hop] at hfresh
      · exact absurd hregisters (hregister dev)

/-- In a run from the start of the program that registers no device twice at a time, every registered device is found,
in every state, exactly when the registry is never cleared while a device is registered and no two registered devices
have one path. -/
theorem registered_found_iff (devices : DevPtr pool → NovaDevice pool) {ops : List (IoOp pool)}
    (honce : ((ioMachine pool).withGhost record).Along (fun s op => RegistersOnce s.2 op)
      (some (programStart devices), ⟨∅, ∅⟩) ops) :
    ((ioMachine pool).withGhost record).Always (fun s => ∃ io, s.1 = some io ∧ FindsRegistered io s.2)
        (some (programStart devices), ⟨∅, ∅⟩) ops ↔
      ((ioMachine pool).withGhost record).Along
        (fun s op => ∀ io, s.1 = some io → ¬ Forgets io s.2 op ∧ ¬ Shadows io s.2 op)
        (some (programStart devices), ⟨∅, ∅⟩) ops :=
  recorded_iff PathsInv.record PathsInv.finds PathsInv.next PathsInv.not_findsRegistered (.start devices) honce

/-- A tape that comes with its number and a disk that does not. -/
def drives (dev : DevPtr 2) : NovaDevice 2 :=
  if dev.val = 0 then
    { name := .ofString "tape", path := .ofString "/dev/tape", type := .block, major := 1, minor := 0
      blockOps := none, next := none, prev := none }
  else
    { name := .ofString "disk", path := .ofString "/dev/disk", type := .block, major := 0, minor := 0
      blockOps := none, next := none, prev := none }

/-- The disk gets a number before the tape comes with it. -/
def attach (tape disk : DevPtr pool) : List (IoOp pool) :=
  [.init, .register (some disk), .register (some tape), .find (some (.ofString "/dev/disk"))]

theorem registersOnce_attach {devices : DevPtr pool → NovaDevice pool} {tape disk : DevPtr pool} (hne : tape ≠ disk) :
    ((ioMachine pool).withGhost record).Along (fun s op => RegistersOnce s.2 op)
      (some (programStart devices), ⟨∅, ∅⟩) (attach tape disk) := by
  refine ⟨?_, ?_, ?_, ?_, trivial⟩
  · intro dev hop
    cases hop
  · intro dev hop hmem
    rcases mem_record_registered hmem with hmem | hop'
    · exact hmem
    · cases hop'
  · intro dev hop hmem
    cases hop
    rcases mem_record_registered hmem with hmem | hop'
    · rcases mem_record_registered hmem with hmem | hop'
      · exact hmem
      · cases hop'
    · cases hop'
      exact hne rfl
  · intro dev hop
    cases hop

theorem registered_found_iff_drives :
    ((ioMachine 2).withGhost record).Always (fun s => ∃ io, s.1 = some io ∧ FindsRegistered io s.2)
        (some (programStart drives), ⟨∅, ∅⟩) (attach 0 1) ↔
      ((ioMachine 2).withGhost record).Along
        (fun s op => ∀ io, s.1 = some io → ¬ Forgets io s.2 op ∧ ¬ Shadows io s.2 op)
        (some (programStart drives), ⟨∅, ∅⟩) (attach 0 1) := by
  refine registered_found_iff drives (registersOnce_attach (by decide))

/-- A tape that was registered is not found after the first initialisation. -/
theorem init_forgets_tape :
    ((ioMachine 2).withGhost record).Along (fun s op => RegistersOnce s.2 op)
        (some (programStart drives), ⟨∅, ∅⟩) [.register (some 0), .init] ∧
      ¬ ((ioMachine 2).withGhost record).Always (fun s => ∃ io, s.1 = some io ∧ FindsRegistered io s.2)
        (some (programStart drives), ⟨∅, ∅⟩) [.register (some 0), .init] := by
  refine ⟨⟨?_, ?_, trivial⟩, fun h => ?_⟩
  · rintro dev ⟨⟩ hmem
    exact hmem
  · rintro dev ⟨⟩
  · obtain ⟨io, hio, hfinds⟩ := h.2.2
    have hlost : (((ioMachine 2).exec (some (programStart drives)) [.register (some 0), .init]).bind fun io =>
        (novaDeviceFind io (some (io.path 0))).map Prod.fst) = some none := by
      decide +kernel
    obtain ⟨io', hfound⟩ := hfinds 0 (.inl rfl)
    have hexec : (ioMachine 2).exec (some (programStart drives)) [.register (some 0), .init] = some io := hio
    rw [hexec, Option.bind_some, hfound] at hlost
    cases hlost

/-! ## The numbers of the registered devices -/

/-- The numbers of the registered devices tell them apart, and a number that the registry gave is nobody else's. -/
structure NumbersMeet (io : IoStack pool) (r : Record pool) : Prop where
  distinct : ∀ dev ∈ r.registered, ∀ d ∈ r.registered, (io.devices d).major = (io.devices dev).major →
    (io.devices d).minor = (io.devices dev).minor → d = dev
  nonzero : ∀ dev ∈ r.registered, dev ∈ r.numbered → (io.devices dev).major ≠ 0
  alone : ∀ dev ∈ r.registered, dev ∈ r.numbered → ∀ d ∈ r.registered,
    (io.devices d).major = (io.devices dev).major → d = dev
  lookup : ∀ dev ∈ r.registered, ∃ io',
    novaDeviceGetByMajorMinor io (io.devices dev).major (io.devices dev).minor = some (some dev, io')

/-- A device is registered with a number that is not free: the counter has wrapped to zero, or a registered device has
the major number, and the minor number too or one of the two got its number from the registry. -/
def Clashes (io : IoStack pool) (r : Record pool) (op : IoOp pool) : Prop :=
  ∃ dev, io.Registers op dev ∧
    ((io.devices dev).major = 0 ∧ io.nextMajor = 0 ∨
      ∃ d ∈ r.registered, (io.devices d).major = io.number dev ∧
        ((io.devices d).minor = (io.devices dev).minor ∨ (io.devices dev).major = 0 ∨ dev ∈ r.numbered ∨
          d ∈ r.numbered))

/-- The registry is the record, and the numbers of its devices are as they should be. -/
structure NumbersInv (io : IoStack pool) (r : Record pool) (devs : List (DevPtr pool)) : Prop where
  record : RecordIs io r devs
  distinct : ∀ dev ∈ devs, ∀ d ∈ devs, (io.devices d).major = (io.devices dev).major →
    (io.devices d).minor = (io.devices dev).minor → d = dev
  nonzero : ∀ dev ∈ devs, dev ∈ r.numbered → (io.devices dev).major ≠ 0
  alone : ∀ dev ∈ devs, dev ∈ r.numbered → ∀ d ∈ devs, (io.devices d).major = (io.devices dev).major → d = dev

theorem NumbersInv.meets (h : NumbersInv io r devs) : NumbersMeet io r where
  distinct dev hdev d hd := h.distinct dev ((h.record.registered dev).mp hdev) d ((h.record.registered d).mp hd)
  nonzero dev hdev := h.nonzero dev ((h.record.registered dev).mp hdev)
  alone dev hdev hnumbered d hd :=
    h.alone dev ((h.record.registered dev).mp hdev) hnumbered d ((h.record.registered d).mp hd)
  lookup dev hdev := by
    refine ⟨io, ?_⟩
    have hfind := (find?_self_iff (fun d => ((io.devices d).major, (io.devices d).minor)) devs).mpr
      (fun dev hdev d hd he => h.distinct dev hdev d hd (congrArg Prod.fst he) (congrArg Prod.snd he))
      dev ((h.record.registered dev).mp hdev)
    simp only [Prod.mk.injEq] at hfind
    rw [h.record.registry.getByMajorMinor, hfind]

theorem NumbersInv.start (devices : DevPtr pool → NovaDevice pool) : NumbersInv (programStart devices) ⟨∅, ∅⟩ [] where
  record := ⟨.start devices, by simp⟩
  distinct := by simp
  nonzero := by simp
  alone := by simp

theorem Registered.major_of_mem {dev : DevPtr pool} (h : Registered io dev io') (hdev : dev ∉ devs) {d : DevPtr pool}
    (hd : d ∈ devs) : (io'.devices d).major = (io.devices d).major := by
  rw [h.major, if_neg]
  rintro rfl
  exact hdev hd

/-- A registration that clashes with nothing finds its number free. -/
theorem NumbersInv.number_free (h : NumbersInv io r devs) {dev : DevPtr pool} (hregisters : io.Registers op dev)
    (hclashes : ¬ Clashes io r op) : io.number dev ≠ 0 ∧
      ∀ d ∈ devs, (io.devices d).major = io.number dev → (io.devices d).minor ≠ (io.devices dev).minor ∧
        (io.devices dev).major ≠ 0 ∧ dev ∉ r.numbered ∧ d ∉ r.numbered := by
  constructor
  · rw [IoStack.number]
    split
    · next hzero => exact fun hnext => hclashes ⟨dev, hregisters, .inl ⟨hzero, hnext⟩⟩
    · next hne => exact hne
  · intro d hd he
    rw [← h.record.registered] at hd
    refine ⟨fun hminor => ?_, fun hmajor => ?_, fun hnumbered => ?_, fun hnumbered => ?_⟩
    · exact hclashes ⟨dev, hregisters, .inr ⟨d, hd, he, .inl hminor⟩⟩
    · exact hclashes ⟨dev, hregisters, .inr ⟨d, hd, he, .inr (.inl hmajor)⟩⟩
    · exact hclashes ⟨dev, hregisters, .inr ⟨d, hd, he, .inr (.inr (.inl hnumbered))⟩⟩
    · exact hclashes ⟨dev, hregisters, .inr ⟨d, hd, he, .inr (.inr (.inr hnumbered))⟩⟩

theorem NumbersInv.register (h : NumbersInv io r devs) {dev : DevPtr pool} (hregisters : io.Registers op dev)
    (hdev : dev ∉ devs) (hregistered : Registered io dev io') (hrecord : RecordIs io' r' (dev :: devs))
    (hnumbered : ∀ d, d ∈ r'.numbered ↔ d ∈ r.numbered ∨ d = dev ∧ (io.devices dev).major = 0)
    (hclashes : ¬ Clashes io r op) : NumbersInv io' r' (dev :: devs) := by
  have hmajor : (io'.devices dev).major = io.number dev := by rw [hregistered.major, if_pos rfl]
  have hold : ∀ d ∈ devs, (io'.devices d).major = (io.devices d).major := fun d hd => hregistered.major_of_mem hdev hd
  have hkept : ∀ d ∈ devs, d ∈ r'.numbered → d ∈ r.numbered := by
    intro d hd hmem
    rcases (hnumbered d).mp hmem with hmem | ⟨rfl, _⟩
    · exact hmem
    · exact absurd hd hdev
  obtain ⟨hnonzero, hfree⟩ := h.number_free hregisters hclashes
  have hnew : ∀ d ∈ devs, (io.devices d).major = io.number dev → dev ∉ r'.numbered := by
    intro d hd he hmem
    obtain ⟨_, hmajor', hunnumbered, _⟩ := hfree d hd he
    rcases (hnumbered dev).mp hmem with hmem | ⟨_, hzero⟩
    · exact hunnumbered hmem
    · exact hmajor' hzero
  refine ⟨hrecord, fun d₁ h₁ d₂ h₂ he hm => ?_, fun d₁ h₁ hmem => ?_, fun d₁ h₁ hmem d₂ h₂ he => ?_⟩
  · rw [hregistered.minor, hregistered.minor] at hm
    rw [List.mem_cons] at h₁ h₂
    rcases h₁ with rfl | h₁ <;> rcases h₂ with rfl | h₂
    · rfl
    · rw [hold d₂ h₂, hmajor] at he
      exact absurd hm (hfree d₂ h₂ he).1
    · rw [hold d₁ h₁, hmajor] at he
      exact absurd hm.symm (hfree d₁ h₁ he.symm).1
    · rw [hold d₁ h₁, hold d₂ h₂] at he
      exact h.distinct d₁ h₁ d₂ h₂ he hm
  · rcases List.mem_cons.mp h₁ with rfl | h₁
    · rwa [hmajor]
    · rw [hold d₁ h₁]
      exact h.nonzero d₁ h₁ (hkept d₁ h₁ hmem)
  · rw [List.mem_cons] at h₁ h₂
    rcases h₁ with rfl | h₁ <;> rcases h₂ with rfl | h₂
    · rfl
    · rw [hold d₂ h₂, hmajor] at he
      exact absurd hmem (hnew d₂ h₂ he)
    · rw [hold d₁ h₁, hmajor] at he
      exact absurd (hkept d₁ h₁ hmem) (hfree d₁ h₁ he.symm).2.2.2
    · rw [hold d₁ h₁, hold d₂ h₂] at he
      exact h.alone d₁ h₁ (hkept d₁ h₁ hmem) d₂ h₂ he

theorem NumbersInv.next (h : NumbersInv io r devs) (heffect : RecordEffect io r devs op io' r')
    (hkeeps : ¬ Forgets io r op ∧ ¬ Clashes io r op) : ∃ devs', NumbersInv io' r' devs' := by
  cases heffect with
  | clear hop hfresh hregistry hrecord hdevices hmajor =>
      have hempty : ∀ dev, dev ∉ r.registered := fun dev hdev => hkeeps.1 ⟨hop, hfresh, dev, hdev⟩
      exact ⟨[], ⟨hregistry, by simpa [hrecord] using hempty⟩, by simp, by simp, by simp⟩
  | register dev hregisters hdev hregistered hrecord hnumbered =>
      exact ⟨dev :: devs, h.register hregisters hdev hregistered hrecord hnumbered hkeeps.2⟩
  | unregister dev hop hrecord hrelinked hmajor hnumbered =>
      have hsub : ∀ d ∈ devs.erase dev, d ∈ devs := fun d => List.mem_of_mem_erase
      refine ⟨devs.erase dev, hrecord, fun d₁ h₁ d₂ h₂ => ?_, fun d₁ h₁ => ?_, fun d₁ h₁ hmem d₂ h₂ => ?_⟩
      · rw [hrelinked.major, hrelinked.major, hrelinked.minor, hrelinked.minor]
        exact h.distinct d₁ (hsub d₁ h₁) d₂ (hsub d₂ h₂)
      · rw [hrelinked.major, hnumbered]
        exact h.nonzero d₁ (hsub d₁ h₁)
      · rw [hrelinked.major, hrelinked.major]
        rw [hnumbered] at hmem
        exact h.alone d₁ (hsub d₁ h₁) hmem d₂ (hsub d₂ h₂)
  | same hinit hregister hnext hrecord =>
      rw [hnext, hrecord]
      exact ⟨devs, h⟩

/-- A number that is not free is zero, or it is shared. -/
theorem Registered.not_numbersMeet {dev : DevPtr pool} (hregistered : Registered io dev io') (hdev : dev ∉ devs)
    (hrecord : RecordIs io' r' (dev :: devs)) (hrecord₀ : RecordIs io r devs)
    (hnumbered : ∀ d, d ∈ r'.numbered ↔ d ∈ r.numbered ∨ d = dev ∧ (io.devices dev).major = 0)
    (hregisters : io.Registers op dev) (hclashes : Clashes io r op) : ¬ NumbersMeet io' r' := by
  intro h
  have hmajor : (io'.devices dev).major = io.number dev := by rw [hregistered.major, if_pos rfl]
  have hmem : dev ∈ r'.registered := (hrecord.registered dev).mpr List.mem_cons_self
  obtain ⟨dev', hregisters', hcases⟩ := hclashes
  obtain rfl := hregisters.unique hregisters'
  rcases hcases with ⟨hzero, hnext⟩ | ⟨d, hd, he, hcases⟩
  · have hgiven : dev' ∈ r'.numbered := (hnumbered dev').mpr (.inr ⟨rfl, hzero⟩)
    refine h.nonzero dev' hmem hgiven ?_
    rw [hmajor, IoStack.number, if_pos hzero, hnext]
  · have hd' : d ∈ devs := (hrecord₀.registered d).mp hd
    have hne : d ≠ dev' := by
      rintro rfl
      exact hdev hd'
    have hmem' : d ∈ r'.registered := (hrecord.registered d).mpr (List.mem_cons_of_mem _ hd')
    have hsame : (io'.devices d).major = (io'.devices dev').major := by
      rw [hregistered.major_of_mem hdev hd', hmajor, he]
    rcases hcases with hminor | hzero | hgiven | hgiven
    · rw [← hregistered.minor, ← hregistered.minor dev'] at hminor
      exact hne (h.distinct dev' hmem d hmem' hsame hminor)
    · exact hne (h.alone dev' hmem ((hnumbered dev').mpr (.inr ⟨rfl, hzero⟩)) d hmem' hsame)
    · exact hne (h.alone dev' hmem ((hnumbered dev').mpr (.inl hgiven)) d hmem' hsame)
    · exact hne (h.alone d hmem' ((hnumbered d).mpr (.inl hgiven)) dev' hmem hsame.symm).symm

theorem NumbersInv.not_meets (h : NumbersInv io r devs) (heffect : RecordEffect io r devs op io' r')
    (hloses : ¬ (¬ Forgets io r op ∧ ¬ Clashes io r op)) : ¬ NumbersMeet io' r' := by
  rw [← not_or, not_not] at hloses
  cases heffect with
  | clear hop hfresh hregistry hrecord hdevices hmajor =>
      rcases hloses with ⟨_, _, dev, hdev⟩ | ⟨dev, hregisters, _⟩
      · intro hmeets
        obtain ⟨io₁, hfound⟩ := hmeets.lookup dev (by rwa [hrecord])
        rw [hregistry.getByMajorMinor] at hfound
        simp at hfound
      · simp [hop, IoStack.Registers] at hregisters
  | register dev hregisters hdev hregistered hrecord hnumbered =>
      rcases hloses with ⟨hinit, _⟩ | hclashes
      · simp [hinit, IoStack.Registers] at hregisters
      · exact hregistered.not_numbersMeet hdev hrecord h.record hnumbered hregisters hclashes
  | unregister dev hop hrecord hrelinked hmajor hnumbered => simp [hop, Forgets, Clashes, IoStack.Registers] at hloses
  | same hinit hregister hnext hrecord =>
      rcases hloses with ⟨hop, hfresh, _⟩ | ⟨dev, hregisters, _⟩
      · simp [hinit hop] at hfresh
      · exact absurd hregisters (hregister dev)

/-- In a run from the start of the program that registers no device twice at a time, the numbers of the registered
devices identify them, in every state, exactly when every device is registered with a number that is free and the
registry is never cleared while a device is registered. -/
theorem numbers_identify_iff (devices : DevPtr pool → NovaDevice pool) {ops : List (IoOp pool)}
    (honce : ((ioMachine pool).withGhost record).Along (fun s op => RegistersOnce s.2 op)
      (some (programStart devices), ⟨∅, ∅⟩) ops) :
    ((ioMachine pool).withGhost record).Always (fun s => ∃ io, s.1 = some io ∧ NumbersMeet io s.2)
        (some (programStart devices), ⟨∅, ∅⟩) ops ↔
      ((ioMachine pool).withGhost record).Along
        (fun s op => ∀ io, s.1 = some io → ¬ Forgets io s.2 op ∧ ¬ Clashes io s.2 op)
        (some (programStart devices), ⟨∅, ∅⟩) ops :=
  recorded_iff NumbersInv.record NumbersInv.meets NumbersInv.next NumbersInv.not_meets (.start devices) honce

theorem numbers_identify_iff_drives :
    ((ioMachine 2).withGhost record).Always (fun s => ∃ io, s.1 = some io ∧ NumbersMeet io s.2)
        (some (programStart drives), ⟨∅, ∅⟩) (attach 0 1) ↔
      ((ioMachine 2).withGhost record).Along
        (fun s op => ∀ io, s.1 = some io → ¬ Forgets io s.2 op ∧ ¬ Clashes io s.2 op)
        (some (programStart drives), ⟨∅, ∅⟩) (attach 0 1) := by
  refine numbers_identify_iff drives (registersOnce_attach (by decide))

/-- The disk is given the number that the tape came with. -/
theorem disk_numbered_as_tape :
    ((ioMachine 2).withGhost record).Along (fun s op => RegistersOnce s.2 op)
        (some (programStart drives), ⟨∅, ∅⟩) [.register (some 0), .register (some 1)] ∧
      ¬ ((ioMachine 2).withGhost record).Always (fun s => ∃ io, s.1 = some io ∧ NumbersMeet io s.2)
        (some (programStart drives), ⟨∅, ∅⟩) [.register (some 0), .register (some 1)] := by
  refine ⟨⟨?_, ?_, trivial⟩, fun h => ?_⟩
  · rintro dev ⟨⟩ hmem
    exact hmem
  · rintro dev ⟨⟩ hmem
    rcases hmem with he | hmem
    · cases he
    · exact hmem
  · obtain ⟨io, hio, hmeets⟩ := h.2.2
    have hclash : (((ioMachine 2).exec (some (programStart drives)) [.register (some 0), .register (some 1)]).map
        fun io => ((io.devices 0).major, (io.devices 1).major, (io.devices 0).minor, (io.devices 1).minor)) =
          some (1, 1, 0, 0) := by
      decide +kernel
    have hexec : (ioMachine 2).exec (some (programStart drives)) [.register (some 0), .register (some 1)] = some io :=
      hio
    rw [hexec, Option.map_some, Option.some.injEq] at hclash
    simp only [Prod.mk.injEq] at hclash
    obtain ⟨hmajor₀, hmajor₁, hminor₀, hminor₁⟩ := hclash
    have hsame := hmeets.distinct 0 (.inr (.inl rfl)) 1 (.inl rfl) (hmajor₁.trans hmajor₀.symm)
      (hminor₁.trans hminor₀.symm)
    cases hsame

end NovaOs.Io
