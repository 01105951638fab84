import NovaOs.Io.Concurrent
import NovaOs.Io.Lemmas.Registry

/-!
# What a critical section does when nobody interferes

It ends exactly when the call has a result, with that result, after at most `pool + 5` steps.
-/

namespace NovaOs.Io

open Lib

variable {pool : Nat} {io io' : IoStack pool} {answer : IoAnswer pool} {dev : DevPtr pool} {n : Nat}
  {prev curr : Option (DevPtr pool)} {p : NovaDevice pool → Bool}

/-- The critical section from a point ends after at most `n` steps. -/
def Ends (n : Nat) (point : Point pool) (io : IoStack pool) (answer : IoAnswer pool) (io' : IoStack pool) : Prop :=
  ∃ m ≤ n, (registryMonitor pool).Completes m point io answer io'

theorem Ends.unlock (io : IoStack pool) (answer : IoAnswer pool) : Ends 0 (.unlock answer) io answer (unlockRegistry io) :=
  ⟨0, Nat.le_refl 0, .answer rfl⟩

theorem Ends.step {point : Point pool} (hnone : registryAnswer point = none)
    (h : Ends n (registryStep point io).1 (registryStep point io).2 answer io') : Ends (n + 1) point io answer io' := by
  obtain ⟨m, hm, hcompletes⟩ := h
  exact ⟨m + 1, Nat.succ_le_succ hm, .step hnone hcompletes⟩

theorem Ends.mono {point : Point pool} {n' : Nat} (h : Ends n point io answer io') (hn : n ≤ n') :
    Ends n' point io answer io' := by
  obtain ⟨m, hm, hcompletes⟩ := h
  exact ⟨m, Nat.le_trans hm hn, hcompletes⟩

/-! ## Registering -/

theorem ends_registerNext (io : IoStack pool) (dev) :
    Ends 3 (.registerNext dev) io (.int 0) (unlockRegistry (io.link dev)) := by
  exact .step rfl (.step rfl (.step rfl (.unlock (io.link dev) (.int 0))))

theorem ends_registerStart (io : IoStack pool) (dev) :
    Ends 6 (.registerStart dev) io (.int 0) (unlockRegistry ((assignMajor io dev).link dev)) := by
  refine .step rfl ?_
  rw [registryStep]
  by_cases hmajor : (io.devices dev).major = 0
  · rw [if_pos hmajor, assignMajor, if_pos hmajor]
    exact .step rfl (.step rfl (ends_registerNext _ dev))
  · rw [if_neg hmajor, assignMajor, if_neg hmajor]
    exact (ends_registerNext io dev).mono (by omega)

/-! ## Searching -/

theorem ends_search {fuel : Nat} {found : Option (DevPtr pool)}
    (h : search io.next (fun dev => p (io.devices dev)) fuel curr = some found) :
    Ends (fuel + 1) (.searchLoop p curr) io (.device found) (unlockRegistry io) := by
  induction fuel generalizing curr with
  | zero =>
      cases curr with
      | none =>
          cases h
          exact .step rfl (.unlock io _)
      | some dev => cases h
  | succ fuel ih =>
      cases curr with
      | none =>
          cases h
          exact (Ends.step rfl (.unlock io _)).mono (by omega)
      | some dev =>
          refine .step rfl ?_
          rw [search] at h
          rw [registryStep]
          cases hp : p (io.devices dev) with
          | true =>
              rw [hp, if_pos rfl] at h
              cases h
              exact (Ends.unlock io _).mono (by omega)
          | false =>
              rw [hp, if_neg Bool.false_ne_true] at h
              exact ih h

theorem exists_search_of_completes (h : (registryMonitor pool).Completes n (.searchLoop p curr) io answer io') :
    ∃ found, search io.next (fun dev => p (io.devices dev)) n curr = some found := by
  induction n generalizing curr with
  | zero =>
      obtain ⟨_, hn, _⟩ := h.exists_step rfl
      cases hn
  | succ n ih =>
      cases curr with
      | none => exact ⟨none, rfl⟩
      | some dev =>
          rw [search]
          cases hp : p (io.devices dev) with
          | true => exact ⟨some dev, rfl⟩
          | false =>
              obtain ⟨m, hm, hrest⟩ := h.exists_step rfl
              cases hm
              have hstep : (registryMonitor pool).step (.searchLoop p (some dev)) io =
                  (.searchLoop p (io.next dev), io) := by
                simp [registryMonitor, registryStep, hp]
              rw [hstep] at hrest
              exact ih hrest

/-! ## Unregistering -/

/-- What is left of a call once the walk to its device is over. -/
def unregisterRest (io : IoStack pool) (dev : DevPtr pool) : Option (Option (DevPtr pool)) → Int × IoStack pool
  | none => (-1, unlockRegistry io)
  | some prev => (0, unlockRegistry (io.unlink dev prev))

theorem ends_unregisterDetach (io : IoStack pool) (dev prev) :
    Ends 2 (.unregisterDetach dev prev) io (.int 0) (unlockRegistry (io.unlink dev prev)) := by
  refine .step rfl (.step rfl ?_)
  cases prev <;> exact .unlock _ _

theorem ends_locate {fuel : Nat} {r : Option (Option (DevPtr pool))} (h : locate io.next dev fuel prev curr = some r) :
    Ends (fuel + 3) (.unregisterLoop dev prev curr) io (.int (unregisterRest io dev r).1) (unregisterRest io dev r).2 := by
  induction fuel generalizing prev curr with
  | zero =>
      cases curr with
      | none =>
          cases h
          exact (Ends.step rfl (.unlock io _)).mono (by omega)
      | some j => cases h
  | succ fuel ih =>
      cases curr with
      | none =>
          cases h
          exact (Ends.step rfl (.unlock io _)).mono (by omega)
      | some j =>
          refine .step rfl ?_
          rw [locate] at h
          rw [registryStep]
          by_cases hj : j = dev
          · rw [if_pos hj] at h ⊢
            cases h
            exact (ends_unregisterDetach io dev prev).mono (by omega)
          · rw [if_neg hj] at h ⊢
            exact ih h

theorem exists_locate_of_completes
    (h : (registryMonitor pool).Completes n (.unregisterLoop dev prev curr) io answer io') :
    ∃ r, locate io.next dev n prev curr = some r := by
  induction n generalizing prev curr with
  | zero =>
      obtain ⟨_, hn, _⟩ := h.exists_step rfl
      cases hn
  | succ n ih =>
      cases curr with
      | none => exact ⟨none, rfl⟩
      | some j =>
          rw [locate]
          by_cases hj : j = dev
          · exact ⟨some prev, if_pos hj⟩
          · rw [if_neg hj]
            obtain ⟨m, hm, hrest⟩ := h.exists_step rfl
            cases hm
            have hstep : (registryMonitor pool).step (.unregisterLoop dev prev (some j)) io =
                (.unregisterLoop dev (some j) (io.next j), io) := by
              simp [registryMonitor, registryStep, hj]
            rw [hstep] at hrest
            exact ih hrest

/-! ## Calls -/

theorem ioStep_eq_of_enter {op : RegistryOp pool} (h : registryEnter op io = some answer) :
    ioStep io op.toIoOp = some (answer, io) := by
  unfold registryEnter at h
  split at h
  · cases h
    rfl
  · next dev io =>
      split at h
      · next hname =>
          cases h
          simp [RegistryOp.toIoOp, ioStep, novaDeviceRegister, hname]
      · cases h
  · cases h
    rfl
  · cases h
  · cases h
    rfl
  · cases h
  · cases h

theorem searchRegistry_ends (hfree : io.registryLock = false) {r : Option (DevPtr pool) × IoStack pool}
    (h : searchRegistry io p = some r) :
    Ends (pool + 2) (.searchStart p) { io with registryLock := true } (.device r.1) r.2 := by
  rw [searchRegistry, lockRegistry_of_free hfree, Option.bind_some] at h
  obtain ⟨found, hsearch, hresult⟩ := Option.map_eq_some_iff.mp h
  cases hresult
  rw [Fintype.card_fin] at hsearch
  exact .step rfl (ends_search hsearch)

theorem isSome_searchRegistry (hfree : io.registryLock = false)
    (h : (registryMonitor pool).Completes n (.searchStart p) { io with registryLock := true } answer io') :
    (searchRegistry io p).isSome := by
  obtain ⟨m, _, hrest⟩ := h.exists_step rfl
  obtain ⟨found, hsearch⟩ := exists_search_of_completes hrest
  have hcard : search io.next (fun dev => p (io.devices dev)) (Fintype.card (DevPtr pool)) io.registry = some found :=
    search_card hsearch
  rw [searchRegistry, lockRegistry_of_free hfree, Option.bind_some, Option.isSome_map]
  exact Option.isSome_of_eq_some hcard

theorem unregister_eq (hfree : io.registryLock = false) (dev : DevPtr pool) :
    novaDeviceUnregister io (some dev) =
      (locate io.next dev (Fintype.card (DevPtr pool)) none io.registry).map
        (unregisterRest { io with registryLock := true } dev) := by
  rw [novaDeviceUnregister, lockRegistry_of_free hfree, Option.bind_some]
  rfl

theorem unregister_ends (hfree : io.registryLock = false) {r : Int × IoStack pool}
    (h : novaDeviceUnregister io (some dev) = some r) :
    Ends (pool + 4) (.unregisterStart dev) { io with registryLock := true } (.int r.1) r.2 := by
  rw [unregister_eq hfree] at h
  obtain ⟨found, hlocate, hresult⟩ := Option.map_eq_some_iff.mp h
  cases hresult
  rw [Fintype.card_fin] at hlocate
  exact .step rfl (ends_locate hlocate)

theorem isSome_unregister (hfree : io.registryLock = false)
    (h : (registryMonitor pool).Completes n (.unregisterStart dev) { io with registryLock := true } answer io') :
    (novaDeviceUnregister io (some dev)).isSome := by
  obtain ⟨m, _, hrest⟩ := h.exists_step rfl
  obtain ⟨found, hlocate⟩ := exists_locate_of_completes hrest
  have hcard : locate io.next dev (Fintype.card (DevPtr pool)) none io.registry = some found := locate_card hlocate
  rw [unregister_eq hfree, hcard]
  rfl

theorem register_eq (hfree : io.registryLock = false) (henter : registryEnter (.register (some dev)) io = none) :
    novaDeviceRegister io (some dev) =
      some (0, unlockRegistry ((assignMajor { io with registryLock := true } dev).link dev)) := by
  have hname : (io.name dev).bytes ≠ [] := by
    intro hname
    rw [registryEnter, if_pos hname] at henter
    cases henter
  rw [novaDeviceRegister, if_neg hname, lockRegistry_of_free hfree]
  rfl

/-- A call with a result leaves its critical section with it. -/
theorem ends_of_ioStep {op : RegistryOp pool} (hfree : io.registryLock = false) (henter : registryEnter op io = none)
    (h : ioStep io op.toIoOp = some (answer, io')) :
    Ends (pool + 6) (registryStart op) { io with registryLock := true } answer io' := by
  cases op with
  | register dev? =>
      cases dev? with
      | none => cases henter
      | some dev =>
          obtain ⟨r, hregister, hresult⟩ := Option.map_eq_some_iff.mp h
          cases hresult
          cases (register_eq hfree henter).symm.trans hregister
          exact (ends_registerStart { io with registryLock := true } dev).mono (by omega)
  | unregister dev? =>
      cases dev? with
      | none => cases henter
      | some dev =>
          obtain ⟨r, hunregister, hresult⟩ := Option.map_eq_some_iff.mp h
          cases hresult
          exact (unregister_ends hfree hunregister).mono (by omega)
  | find path? =>
      cases path? with
      | none => cases henter
      | some path =>
          obtain ⟨r, hfind, hresult⟩ := Option.map_eq_some_iff.mp h
          cases hresult
          rw [novaDeviceFind] at hfind
          exact (searchRegistry_ends hfree hfind).mono (by omega)
  | getByMajorMinor major minor =>
      obtain ⟨r, hget, hresult⟩ := Option.map_eq_some_iff.mp h
      cases hresult
      rw [novaDeviceGetByMajorMinor] at hget
      exact (searchRegistry_ends hfree hget).mono (by omega)

/-- A critical section that ends is that of a call with a result. -/
theorem isSome_ioStep {op : RegistryOp pool} (hfree : io.registryLock = false) (henter : registryEnter op io = none)
    (h : (registryMonitor pool).Completes n (registryStart op) { io with registryLock := true } answer io') :
    (ioStep io op.toIoOp).isSome := by
  cases op with
  | register dev? =>
      cases dev? with
      | none => cases henter
      | some dev =>
          rw [RegistryOp.toIoOp, ioStep, register_eq hfree henter]
          rfl
  | unregister dev? =>
      cases dev? with
      | none => cases henter
      | some dev =>
          rw [RegistryOp.toIoOp, ioStep, Option.isSome_map]
          exact isSome_unregister hfree h
  | find path? =>
      cases path? with
      | none => cases henter
      | some path =>
          rw [RegistryOp.toIoOp, ioStep, Option.isSome_map]
          exact isSome_searchRegistry hfree h
  | getByMajorMinor major minor =>
      rw [RegistryOp.toIoOp, ioStep, Option.isSome_map]
      exact isSome_searchRegistry hfree h

/-- A call behind the lock does what it does alone. -/
theorem registryMonitor_implements (pool : Nat) :
    (registryMonitor pool).Implements fun io op => ioStep io op.toIoOp where
  enter henter := ioStep_eq_of_enter henter
  body := by
    intro io op answer io' henter hfree
    constructor
    · rintro ⟨n, hcompletes⟩
      obtain ⟨⟨answer', io''⟩, hstep⟩ := Option.isSome_iff_exists.mp (isSome_ioStep hfree henter hcompletes)
      obtain ⟨m, _, hcompletes'⟩ := ends_of_ioStep hfree henter hstep
      obtain ⟨rfl, rfl⟩ := hcompletes'.unique hcompletes
      exact hstep
    · intro hstep
      obtain ⟨m, _, hcompletes⟩ := ends_of_ioStep hfree henter hstep
      exact ⟨m, hcompletes⟩

end NovaOs.Io
