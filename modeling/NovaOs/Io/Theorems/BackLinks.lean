import NovaOs.Io.Theorems.Registry

/-!
# The pointers back

A registration writes the pointer back of the device that was in front, and nobody clears that of the new one: it keeps
what the device came with. Taking a device out hands its pointer back on to the one behind it.
-/

namespace NovaOs.Io

open Lib

variable {pool : Nat} {io io' : IoStack pool} {devs : List (DevPtr pool)} {op : IoOp pool} {answer : IoAnswer pool}

/-! ## What a call does to the pointers back -/

namespace IoStack

variable (io : IoStack pool) (dev : DevPtr pool)

theorem prev_setNext (next) : (io.setNext dev next).prev = io.prev := by
  funext d
  rw [prev, setNext, devices_setDevice]
  split
  · next he => rw [he, prev]
  · rfl

theorem prev_setPrev (ptr) : (io.setPrev dev ptr).prev = Function.update io.prev dev ptr := by
  funext d
  rw [prev, setPrev, devices_setDevice, Function.update_apply]
  split <;> rfl

theorem prev_assignMajor : (assignMajor io dev).prev = io.prev := by
  funext d
  rw [prev, devices_assignMajor]
  split
  · next he => rw [he, prev]
  · rfl

theorem prev_link : (io.link dev).prev = setBack io.prev io.registry (some dev) := by
  cases hhead : io.registry with
  | none =>
      simp only [link, hhead]
      exact io.prev_setNext dev none
  | some head =>
      simp only [link, hhead]
      have hlinked := (io.setNext dev (some head)).prev_setPrev head (some dev)
      rw [prev_setNext] at hlinked
      exact hlinked

theorem prev_detach (before) : (io.detach dev before).prev = io.prev := by
  cases before with
  | none => rfl
  | some before => exact io.prev_setNext before (io.next dev)

theorem prev_unlink (before : Option (DevPtr pool)) :
    (io.unlink dev before).prev = setBack io.prev (io.next dev) before := by
  rw [← io.next_detach_self dev before, ← io.prev_detach dev before, unlink]
  split
  · next after hafter =>
      rw [hafter]
      exact prev_setPrev ..
  · next hafter =>
      rw [hafter]
      rfl

end IoStack

theorem RegistryIs.prev_register (h : RegistryIs io devs) {dev : DevPtr pool} (hregisters : io.Registers op dev)
    (hstep : ioStep io op = some (answer, io')) : io'.prev = setBack io.prev io.registry (some dev) := by
  obtain ⟨rfl, hname⟩ := hregisters
  rw [ioStep, novaDeviceRegister, if_neg hname, lockRegistry_of_free h.free] at hstep
  cases hstep
  have hlinked := (assignMajor { io with registryLock := true } dev).prev_link dev
  rw [IoStack.prev_assignMajor, (IoStack.statics_assignMajor _ dev).1] at hlinked
  exact hlinked

theorem RegistryIs.prev_unregister {ks rest : List (DevPtr pool)} {dev : DevPtr pool}
    (h : RegistryIs io (ks ++ dev :: rest)) (hstep : ioStep io (.unregister (some dev)) = some (answer, io')) :
    io'.prev = setBack io.prev rest.head? ks.getLast? := by
  rw [ioStep, h.unregister_eq] at hstep
  cases hstep
  rw [← h.linked.next_eq_head?]
  exact IoStack.prev_unlink { io with registryLock := true } dev ks.getLast?

/-! ## Links in both directions -/

/-- The head of the registry leads to the device. -/
def IoStack.InRegistry (io : IoStack pool) (dev : DevPtr pool) : Prop :=
  ∃ devs, Linked io.next io.registry devs ∧ dev ∈ devs

/-- The pointers back mirror the pointers on. -/
structure BackLinksMirror (io : IoStack pool) : Prop where
  head : ∀ dev, io.registry = some dev → io.prev dev = none
  back : ∀ dev, io.InRegistry dev → ∀ after, io.next dev = some after → io.prev after = some dev

/-- A device is registered that points back to another one, or to itself. -/
def RegistersStale (io : IoStack pool) (op : IoOp pool) : Prop := ∃ dev, io.Registers op dev ∧ io.prev dev ≠ none

theorem RegistryIs.inRegistry_iff (h : RegistryIs io devs) {dev : DevPtr pool} : io.InRegistry dev ↔ dev ∈ devs := by
  constructor
  · rintro ⟨devs', hlinked, hdev⟩
    rwa [hlinked.unique h.linked] at hdev
  · exact fun hdev => ⟨devs, h.linked, hdev⟩

theorem RegistryIs.backLinksMirror_iff (h : RegistryIs io devs) : BackLinksMirror io ↔ BackLinked io.prev none devs := by
  rw [h.linked.backLinked_iff]
  constructor
  · rintro ⟨hhead, hback⟩
    exact ⟨hhead, fun dev hdev => hback dev (h.inRegistry_iff.mpr hdev)⟩
  · rintro ⟨hhead, hback⟩
    exact ⟨hhead, fun dev hdev => hback dev (h.inRegistry_iff.mp hdev)⟩

/-- The registry is a list whose devices point back to the ones before them. -/
structure MirrorInv (io : IoStack pool) (devs : List (DevPtr pool)) : Prop where
  registry : RegistryIs io devs
  back : BackLinked io.prev none devs

theorem MirrorInv.mirror (h : MirrorInv io devs) : BackLinksMirror io := h.registry.backLinksMirror_iff.mpr h.back

theorem MirrorInv.next (h : MirrorInv io devs) (hstep : ioStep io op = some (answer, io'))
    (heffect : Effect io devs op answer io') (honce : ¬ RegistersAgain io op) (hclean : ¬ RegistersStale io op) :
    ∃ devs', MirrorInv io' devs' := by
  cases heffect with
  | clear hop hfresh hnext =>
      rw [hnext]
      exact ⟨[], h.registry.clear, trivial⟩
  | register dev hregisters hanswer hregistered =>
      have hdev : dev ∉ devs := fun hmem => honce (h.registry.registersAgain_iff.mpr ⟨dev, hregisters, hmem⟩)
      have hprev : io.prev dev = none := by
        by_contra hstale
        exact hclean ⟨dev, hregisters, hstale⟩
      have hback := h.back.cons (List.nodup_cons.mpr ⟨hdev, h.registry.nodup⟩)
      rw [hprev, ← h.registry.linked.eq_head?, ← h.registry.prev_register hregisters hstep] at hback
      exact ⟨dev :: devs, h.registry.register hregistered hdev, hback⟩
  | unregister dev hop hdev hanswer hregistry hrelinked hmajor =>
      subst hop
      obtain ⟨ks, rest, rfl⟩ := List.append_of_mem hdev
      have hback := h.back.erase h.registry.nodup
      rw [Option.or_none, ← h.registry.prev_unregister hstep] at hback
      rw [erase_of_nodup h.registry.nodup] at hregistry
      exact ⟨ks ++ rest, hregistry, hback⟩
  | same hinit hregister hanswer hnext =>
      rw [hnext]
      exact ⟨devs, h⟩

/-- A device that points back somewhere keeps its pointer when it is put in front. -/
theorem MirrorInv.not_mirror (h : MirrorInv io devs) (hstep : ioStep io op = some (answer, io'))
    (heffect : Effect io devs op answer io') (honce : ¬ RegistersAgain io op) (hstale : RegistersStale io op) :
    ¬ BackLinksMirror io' := by
  obtain ⟨dev, hregisters, hprev⟩ := hstale
  cases heffect with
  | register dev' hregisters' hanswer hregistered =>
      obtain rfl := hregisters.unique hregisters'
      intro hmirror
      have hhead : io.registry ≠ some dev' := by
        intro he
        rw [h.registry.linked.eq_head?] at he
        exact honce (h.registry.registersAgain_iff.mpr ⟨dev', hregisters, List.mem_of_head? he⟩)
      have hkept := hmirror.head dev' hregistered.registry
      rw [h.registry.prev_register hregisters hstep, setBack_of_ne hhead] at hkept
      exact hprev hkept
  | clear hop hfresh hnext => simp [hop, IoStack.Registers] at hregisters
  | unregister dev' hop hdev hanswer hregistry hrelinked hmajor => simp [hop, IoStack.Registers] at hregisters
  | same hinit hregister hanswer hnext => exact absurd hregisters (hregister dev)

/-- In a run from the start of the program that registers no device while it is in the registry, the pointers back mirror
the pointers on, in every state, exactly when every device has no pointer back when it is registered. -/
theorem back_links_mirror_iff (devices : DevPtr pool → NovaDevice pool) {ops : List (IoOp pool)}
    (honce : (ioMachine pool).Along (fun st op => ∀ io, st = some io → ¬ RegistersAgain io op)
      (some (programStart devices)) ops) :
    (ioMachine pool).Always (fun st => ∃ io, st = some io ∧ BackLinksMirror io) (some (programStart devices)) ops ↔
      (ioMachine pool).Along (fun st op => ∀ io, st = some io → ¬ RegistersStale io op)
        (some (programStart devices)) ops := by
  let Inv (st : Option (IoStack pool)) : Prop := ∃ io devs, st = some io ∧ MirrorInv io devs
  have hstart : Inv (some (programStart devices)) := ⟨_, [], rfl, .start devices, trivial⟩
  refine Machine.always_iff_along_of ?_ ?_ ?_ hstart honce
  · rintro st ⟨io, devs, rfl, h⟩
    exact ⟨io, rfl, h.mirror⟩
  · rintro st op ⟨io, devs, rfl, h⟩ hagain hclean
    obtain ⟨answer, io', hstep, heffect⟩ := h.registry.effect op
    obtain ⟨devs', h'⟩ := h.next hstep heffect (hagain io rfl) (hclean io rfl)
    exact ⟨io', devs', Machine.ofPartial_next hstep, h'⟩
  · rintro st op ⟨io, devs, rfl, h⟩ hagain hstale ⟨io'', hnext, hmirror⟩
    obtain ⟨answer, io', hstep, heffect⟩ := h.registry.effect op
    obtain rfl : io' = io'' := Option.some.inj ((Machine.ofPartial_next hstep).symm.trans hnext)
    refine hstale fun io₀ hio₀ hstale₀ => ?_
    cases hio₀
    exact h.not_mirror hstep heffect (hagain io rfl) hstale₀ hmirror

theorem not_registersAgain (devs : List (DevPtr pool)) {dev : DevPtr pool} (hdev : dev ∉ devs)
    (hlinked : Linked io.next io.registry devs) : ¬ RegistersAgain io (.register (some dev)) := by
  rintro ⟨dev', devs', ⟨hop, _⟩, hlinked', hmem⟩
  cases hop
  rw [hlinked'.unique hlinked] at hmem
  exact hdev hmem

/-- The tape is taken out from behind the disk, and comes back. -/
def comeBack (tape disk : DevPtr pool) : List (IoOp pool) :=
  [.register (some tape), .register (some disk), .unregister (some tape), .register (some tape)]

theorem registersOnce_comeBack :
    (ioMachine 2).Along (fun st op => ∀ io, st = some io → ¬ RegistersAgain io op) (some (programStart drives))
      (comeBack 0 1) := by
  refine ⟨?_, ?_, ?_, ?_, trivial⟩
  · rintro io ⟨⟩
    refine not_registersAgain [] (by simp) ?_
    rfl
  · rintro io ⟨⟩
    refine not_registersAgain [0] (by decide) ?_
    exact ⟨rfl, rfl⟩
  · rintro io - ⟨dev, devs, ⟨hop, _⟩, _⟩
    cases hop
  · rintro io ⟨⟩
    refine not_registersAgain [1] (by decide) ?_
    exact ⟨rfl, rfl⟩

theorem back_links_mirror_iff_comeBack :
    (ioMachine 2).Always (fun st => ∃ io, st = some io ∧ BackLinksMirror io) (some (programStart drives))
        (comeBack 0 1) ↔
      (ioMachine 2).Along (fun st op => ∀ io, st = some io → ¬ RegistersStale io op) (some (programStart drives))
        (comeBack 0 1) :=
  back_links_mirror_iff drives registersOnce_comeBack

/-- The tape that comes back is in front, and still points back to the disk. -/
theorem tape_points_back :
    (ioMachine 2).Along (fun st op => ∀ io, st = some io → ¬ RegistersAgain io op) (some (programStart drives))
        (comeBack 0 1) ∧
      ¬ (ioMachine 2).Always (fun st => ∃ io, st = some io ∧ BackLinksMirror io) (some (programStart drives))
        (comeBack 0 1) := by
  refine ⟨registersOnce_comeBack, fun h => ?_⟩
  obtain ⟨io, hio, hmirror⟩ := h.2.2.2.2
  cases hio
  exact absurd (hmirror.head 0 rfl) (by decide)

end NovaOs.Io
