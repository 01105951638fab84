import NovaOs.Io.Memory
import NovaOs.Io.Lemmas.Registry

/-!
# What a call depends on and changes

The devices that a call touches are all that it depends on besides the static variables, and all that it writes to. So
what the other devices hold can be laid under the call, before it or after it.
-/

namespace NovaOs.Io

open Lib

variable {pool : Nat} {io io' : IoStack pool} {op : IoOp pool} {answer : IoAnswer pool} {live : Finset (DevPtr pool)}
  {others : DevPtr pool → NovaDevice pool} {dev : DevPtr pool}

/-- The state with other contents in the devices outside `live`. -/
def IoStack.overlay (io : IoStack pool) (live : Finset (DevPtr pool)) (others : DevPtr pool → NovaDevice pool) :
    IoStack pool :=
  { io with devices := fun dev => if dev ∈ live then io.devices dev else others dev }

namespace IoStack

theorem devices_overlay (h : dev ∈ live) : (io.overlay live others).devices dev = io.devices dev := if_pos h

theorem next_overlay (h : dev ∈ live) : (io.overlay live others).next dev = io.next dev :=
  congrArg NovaDevice.next (devices_overlay h)

theorem overlay_self (io : IoStack pool) (live : Finset (DevPtr pool)) : io.overlay live io.devices = io := by
  simp only [overlay, ite_self]

theorem overlay_overlay (io : IoStack pool) (live : Finset (DevPtr pool)) (others) :
    (io.overlay live others).overlay live io.devices = io := by
  have hdevices : (fun d => if d ∈ live then (if d ∈ live then io.devices d else others d) else io.devices d) =
      io.devices := by
    funext d
    by_cases hd : d ∈ live <;> simp [hd]
  simp only [overlay, hdevices]

/-- A device of `live` is written to as if the others were not changed. -/
theorem overlay_setDevice (h : dev ∈ live) (device : NovaDevice pool) :
    (io.overlay live others).setDevice dev device = (io.setDevice dev device).overlay live others := by
  have hdevices : Function.update (fun d => if d ∈ live then io.devices d else others d) dev device =
      fun d => if d ∈ live then Function.update io.devices dev device d else others d := by
    funext d
    by_cases hd : d = dev
    · simp [hd, h]
    · simp [Function.update_of_ne hd]
  simp only [setDevice, overlay, hdevices]

theorem overlay_setNext (h : dev ∈ live) (next) :
    (io.overlay live others).setNext dev next = (io.setNext dev next).overlay live others := by
  rw [setNext, devices_overlay h, overlay_setDevice h, setNext]

theorem overlay_setPrev (h : dev ∈ live) (prev) :
    (io.overlay live others).setPrev dev prev = (io.setPrev dev prev).overlay live others := by
  rw [setPrev, devices_overlay h, overlay_setDevice h, setPrev]

/-- A walk over live devices is the same walk. -/
theorem walked_overlay {p p' : DevPtr pool → Bool} (h : ∀ d ∈ io.walked p, d ∈ live)
    (hp : ∀ d ∈ live, p' d = p d) :
    search (io.overlay live others).next p' (Fintype.card (DevPtr pool)) io.registry =
        search io.next p (Fintype.card (DevPtr pool)) io.registry ∧
      (io.overlay live others).walked p' = io.walked p :=
  search_congr fun d hd => ⟨next_overlay (h d hd), hp d (h d hd)⟩

end IoStack

/-! ## Registering a device -/

theorem assignMajor_overlay (h : dev ∈ live) :
    assignMajor (io.overlay live others) dev = (assignMajor io dev).overlay live others := by
  rw [assignMajor, assignMajor, IoStack.devices_overlay h]
  split
  · rw [IoStack.setMajor, IoStack.devices_overlay h, IoStack.overlay_setDevice h]
    rfl
  · rfl

theorem IoStack.link_overlay (hdev : dev ∈ live) (hhead : ∀ head, io.registry = some head → head ∈ live) :
    (io.overlay live others).link dev = (io.link dev).overlay live others := by
  have hregistry : (io.overlay live others).registry = io.registry := rfl
  rw [link, link, overlay_setNext hdev, hregistry]
  cases hreg : io.registry with
  | none => rfl
  | some head =>
      simp only [overlay_setPrev (hhead head hreg)]
      rfl

theorem register_overlay (h : ∀ d ∈ io.touched (.register (some dev)), d ∈ live) :
    novaDeviceRegister (io.overlay live others) (some dev) =
      (novaDeviceRegister io (some dev)).map (Prod.map id fun io' => io'.overlay live others) := by
  have hdev : dev ∈ live := h dev (by rw [IoStack.touched]; split <;> simp)
  have hname : (io.overlay live others).name dev = io.name dev := congrArg NovaDevice.name (IoStack.devices_overlay hdev)
  rw [novaDeviceRegister, novaDeviceRegister, hname]
  by_cases hempty : (io.name dev).bytes = []
  · rw [if_pos hempty, if_pos hempty]
    rfl
  · have hhead : ∀ head, io.registry = some head → head ∈ live := fun head hreg =>
      h head (by rw [IoStack.touched, if_neg hempty, hreg]; simp)
    rw [if_neg hempty, if_neg hempty, lockRegistry, lockRegistry]
    have hlock : (io.overlay live others).registryLock = io.registryLock := rfl
    rw [hlock]
    split
    · rfl
    · rw [Option.map_some, Option.map_some, Option.map_some]
      have hassign := @assignMajor_overlay _ { io with registryLock := true } live others dev hdev
      have hlink : ((assignMajor { io with registryLock := true } dev).overlay live others).link dev =
          ((assignMajor { io with registryLock := true } dev).link dev).overlay live others := by
        refine IoStack.link_overlay hdev ?_
        rw [(IoStack.statics_assignMajor _ dev).1]
        exact hhead
      exact congrArg (fun io => some ((0 : Int), unlockRegistry io)) ((congrArg (·.link dev) hassign).trans hlink)

/-! ## Taking a device out -/

theorem IoStack.detach_overlay {prev : Option (DevPtr pool)} (hdev : dev ∈ live)
    (hprev : ∀ before, prev = some before → before ∈ live) :
    (io.overlay live others).detach dev prev = (io.detach dev prev).overlay live others := by
  cases prev with
  | none =>
      simp only [detach, next_overlay hdev]
      rfl
  | some before => rw [detach, next_overlay hdev, overlay_setNext (hprev before rfl), detach]

theorem IoStack.unlink_overlay {prev : Option (DevPtr pool)} (hdev : dev ∈ live)
    (hprev : ∀ before, prev = some before → before ∈ live) (hnext : ∀ after, io.next dev = some after → after ∈ live) :
    (io.overlay live others).unlink dev prev = (io.unlink dev prev).overlay live others := by
  rw [unlink, unlink, detach_overlay hdev hprev, next_overlay hdev]
  cases hafter : (io.detach dev prev).next dev with
  | none => rfl
  | some after => exact overlay_setPrev (hnext after (by rw [← io.next_detach_self dev prev, hafter])) _

theorem unregister_overlay (h : ∀ d ∈ io.touched (.unregister (some dev)), d ∈ live) :
    novaDeviceUnregister (io.overlay live others) (some dev) =
      (novaDeviceUnregister io (some dev)).map (Prod.map id fun io' => io'.overlay live others) := by
  have hwalked : ∀ d ∈ io.walked (fun curr => curr = dev), d ∈ live := fun d hd => h d (List.mem_append_left _ hd)
  have hlocate : locate (IoStack.next { io.overlay live others with registryLock := true }) dev
      (Fintype.card (DevPtr pool)) none io.registry =
        locate (IoStack.next { io with registryLock := true }) dev (Fintype.card (DevPtr pool)) none io.registry :=
    locate_congr fun d hd => IoStack.next_overlay (hwalked d hd)
  have hlock : (io.overlay live others).registryLock = io.registryLock := rfl
  rw [novaDeviceUnregister, novaDeviceUnregister, lockRegistry, lockRegistry, hlock]
  split
  · rfl
  · rw [Option.bind_some, Option.bind_some]
    have hlocate' : locate (IoStack.next { io.overlay live others with registryLock := true }) dev
        (Fintype.card (DevPtr pool)) none (io.overlay live others).registry = _ := hlocate
    rw [hlocate']
    cases hfound : locate (IoStack.next { io with registryLock := true }) dev (Fintype.card (DevPtr pool)) none
        io.registry with
    | none => rfl
    | some found =>
        cases found with
        | none => rfl
        | some prev =>
            obtain ⟨hvisited, hbefore⟩ := mem_visited_of_locate hfound
            have hdev : dev ∈ io.walked fun curr => curr = dev := hvisited
            have hprev : ∀ before, prev = some before → before ∈ live := fun before he => by
              rcases hbefore before he with hnone | hvisited'
              · cases hnone
              · exact hwalked before hvisited'
            have hnext : ∀ after, io.next dev = some after → after ∈ live := fun after he =>
              h after (List.mem_append_right _ (by rw [if_pos hdev, he]; simp))
            have hunlink := @IoStack.unlink_overlay _ { io with registryLock := true } live others dev prev
              (hwalked dev hdev) hprev hnext
            exact congrArg (fun io => some ((0 : Int), unlockRegistry io)) hunlink

/-! ## Any call -/

theorem searchRegistry_overlay {p : NovaDevice pool → Bool} (h : ∀ d ∈ io.walked (fun curr => p (io.devices curr)), d ∈ live) :
    searchRegistry (io.overlay live others) p =
      (searchRegistry io p).map (Prod.map id fun io' => io'.overlay live others) := by
  have hsearch := (@IoStack.walked_overlay _ io live others _ (fun d => p ((io.overlay live others).devices d)) h
    fun d hd => congrArg p (IoStack.devices_overlay hd)).1
  have hlock : (io.overlay live others).registryLock = io.registryLock := rfl
  rw [searchRegistry, searchRegistry, lockRegistry, lockRegistry, hlock]
  split
  · rfl
  · rw [Option.bind_some, Option.bind_some, Option.map_map]
    refine (congrArg (Option.map _) hsearch).trans ?_
    rfl

/-- What a device holds that a call does not touch goes neither into its answer nor into the state after it, but stays
where it is. -/
theorem ioStep_overlay (h : ∀ d ∈ io.touched op, d ∈ live) :
    ioStep (io.overlay live others) op = (ioStep io op).map (Prod.map id fun io' => io'.overlay live others) := by
  cases op with
  | init =>
      have hinit : (io.overlay live others).initialized = io.initialized := rfl
      rw [ioStep, ioStep, novaIoInit, novaIoInit, hinit]
      split <;> rfl
  | register dev? =>
      cases dev? with
      | none => rfl
      | some dev =>
          rw [ioStep, ioStep, register_overlay h, Option.map_map, Option.map_map]
          rfl
  | unregister dev? =>
      cases dev? with
      | none => rfl
      | some dev =>
          rw [ioStep, ioStep, unregister_overlay h, Option.map_map, Option.map_map]
          rfl
  | find path? =>
      cases path? with
      | none => rfl
      | some path =>
          rw [ioStep, ioStep, novaDeviceFind, novaDeviceFind, searchRegistry_overlay h, Option.map_map, Option.map_map]
          rfl
  | getByMajorMinor major minor =>
      rw [ioStep, ioStep, novaDeviceGetByMajorMinor, novaDeviceGetByMajorMinor, searchRegistry_overlay h, Option.map_map,
        Option.map_map]
      rfl

/-- The call touches the same devices, whatever the others hold. -/
theorem touched_overlay (h : ∀ d ∈ io.touched op, d ∈ live) : (io.overlay live others).touched op = io.touched op := by
  cases op with
  | init => rfl
  | register dev? =>
      cases dev? with
      | none => rfl
      | some dev =>
          have hdev : dev ∈ live := h dev (by rw [IoStack.touched]; split <;> simp)
          have hname : (io.overlay live others).name dev = io.name dev :=
            congrArg NovaDevice.name (IoStack.devices_overlay hdev)
          rw [IoStack.touched, IoStack.touched, hname]
          rfl
  | unregister dev? =>
      cases dev? with
      | none => rfl
      | some dev =>
          have hwalked : ∀ d ∈ io.walked (fun curr => curr = dev), d ∈ live := fun d hd =>
            h d (List.mem_append_left _ hd)
          rw [IoStack.touched, IoStack.touched, (IoStack.walked_overlay hwalked fun _ _ => rfl).2]
          by_cases hdev : dev ∈ io.walked fun curr => curr = dev
          · rw [if_pos hdev, if_pos hdev, IoStack.next_overlay (hwalked dev hdev)]
          · rw [if_neg hdev, if_neg hdev]
  | find path? =>
      cases path? with
      | none => rfl
      | some path =>
          exact (IoStack.walked_overlay h fun d hd => by rw [IoStack.devices_overlay hd]).2
  | getByMajorMinor major minor =>
      exact (IoStack.walked_overlay h fun d hd => by rw [IoStack.devices_overlay hd]).2

/-- A call leaves the devices alone that it does not touch. -/
theorem ioStep_frame (h : ioStep io op = some (answer, io')) (hdev : dev ∉ io.touched op) :
    io'.devices dev = io.devices dev := by
  have hoverlay := @ioStep_overlay _ io op (io.touched op).toFinset io.devices fun d hd => List.mem_toFinset.mpr hd
  rw [IoStack.overlay_self, h, Option.map_some, Option.some.injEq] at hoverlay
  have hio : io' = io'.overlay (io.touched op).toFinset io.devices := congrArg Prod.snd hoverlay
  rw [hio]
  exact if_neg fun hmem => hdev (List.mem_toFinset.mp hmem)

end NovaOs.Io
