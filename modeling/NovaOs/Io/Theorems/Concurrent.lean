import NovaOs.Io.Lemmas.Concurrent
import NovaOs.Io.Theorems.Registry

/-!
# The registry under threads

Threads that call the registry take their steps in any order. They are answered as if one of them had made the calls, in
the order of the answers; the lock is what makes it so. A thread with the lock is answered in bounded time, unless a walk
over the registry does not end: then it keeps the lock for ever.
-/

namespace NovaOs.Io

open Lib

variable {pool : Nat} {τ : Type*} [DecidableEq τ] {op : RegistryOp pool} {io done : IoStack pool} {point : Point pool}
  {devs : List (DevPtr pool)} {t : τ}

/-- The calls that were answered, in the order of the answers. -/
def answered (history : Monitor.History τ (RegistryOp pool) (IoAnswer pool)) : List (IoOp pool) :=
  ((Monitor.responses history).map Prod.fst).map RegistryOp.toIoOp

theorem registry_linearized (io : IoStack pool) (hfree : io.registryLock = false) (moves : List (τ × RegistryOp pool)) :
    let history := (registryMonitor pool).concurrent.trace (io, fun _ => .idle) moves
    let st := (registryMonitor pool).concurrent.exec (io, fun _ => .idle) moves
    ∃ done, (registryMonitor pool).Linearized (fun io op => ioStep io op.toIoOp) io st history done ∧
      (ioMachine pool).exec (some io) (answered history) = some done ∧
      (ioMachine pool).trace (some io) (answered history) =
        (Monitor.responses history).map fun r => (r.1.toIoOp, some r.2) := by
  intro history st
  obtain ⟨done, h⟩ := Monitor.linearized (registryMonitor_implements pool) hfree moves
  obtain ⟨hexec, htrace⟩ := Machine.ofPartial_comap ioStep RegistryOp.toIoOp (some io)
    ((Monitor.responses history).map Prod.fst)
  refine ⟨done, h, hexec.symm.trans h.exec, ?_⟩
  rw [answered, ioMachine, ← htrace, h.trace, List.map_map]
  rfl

/-- The answers are those of one thread, in the order in which they were given, and the registry is left as it leaves it.
A thread is answered each of its calls once, in its own order. -/
theorem registry_linearizable (io : IoStack pool) (hfree : io.registryLock = false) (moves : List (τ × RegistryOp pool)) :
    let history := (registryMonitor pool).concurrent.trace (io, fun _ => .idle) moves
    let st := (registryMonitor pool).concurrent.exec (io, fun _ => .idle) moves
    ∃ done, (ioMachine pool).exec (some io) (answered history) = some done ∧
      (ioMachine pool).trace (some io) (answered history) =
        (Monitor.responses history).map (fun r => (r.1.toIoOp, some r.2)) ∧
      (st.1.registryLock = false → st.1 = done) ∧
      ∀ t, Monitor.invokedBy t history = (Monitor.answersTo t history).map Prod.fst ++ (st.2 t).pending := by
  intro history st
  obtain ⟨done, h, hexec, htrace⟩ := registry_linearized io hfree moves
  exact ⟨done, hexec, htrace, h.inside.eq_done, fun t => Monitor.invokedBy_eq io t moves⟩

/-- One of two threads registers the disk while the other one waits for the lock, and then looks the disk up. -/
def plugIn (disk : DevPtr pool) : List (Bool × RegistryOp pool) :=
  [(true, .register (some disk)), (false, .getByMajorMinor 1 0)] ++
    (List.replicate 9 [(true, .find none), (false, .find none)]).flatten ++ List.replicate 3 (false, .find none)

theorem registry_linearizable_plugIn :
    let history := (registryMonitor 1).concurrent.trace (programStart disk, fun _ => .idle) (plugIn 0)
    let st := (registryMonitor 1).concurrent.exec (programStart disk, fun _ => .idle) (plugIn 0)
    Monitor.responses history = [(.register (some 0), .int 0), (.getByMajorMinor 1 0, .device (some 0))] ∧
      st.1.registryLock = false ∧
      ∃ done, (ioMachine 1).exec (some (programStart disk)) (answered history) = some done ∧
        (ioMachine 1).trace (some (programStart disk)) (answered history) =
          (Monitor.responses history).map (fun r => (r.1.toIoOp, some r.2)) ∧
        (st.1.registryLock = false → st.1 = done) ∧
        ∀ t, Monitor.invokedBy t history = (Monitor.answersTo t history).map Prod.fst ++ (st.2 t).pending :=
  ⟨by decide +kernel, by decide +kernel, registry_linearizable (programStart disk) rfl (plugIn 0)⟩

/-- The disk is in the registry. One of two threads has the lock to take it out, and the other one waits to do so. -/
def takeOut (disk : DevPtr pool) : List (Bool × RegistryOp pool) :=
  plugIn disk ++ [(true, .unregister (some disk)), (false, .unregister (some disk)), (true, .find none),
    (false, .find none), (true, .find none), (false, .find none)]

/-- Whatever steps the threads take, the lock is held while one of them is in its critical section, and no two are. -/
theorem registry_exclusive (io : IoStack pool) (hfree : io.registryLock = false) (moves : List (τ × RegistryOp pool)) :
    let st := (registryMonitor pool).concurrent.exec (io, fun _ => .idle) moves
    (st.1.registryLock = true ↔ ∃ t op point, st.2 t = .inside op point) ∧
      ∀ t op point t' op' point', st.2 t = .inside op point → st.2 t' = .inside op' point' → t = t' := by
  intro st
  obtain ⟨done, h, _, _⟩ := registry_linearized io hfree moves
  refine ⟨h.inside.held_iff h.free, fun t op point t' op' point' ht ht' => ?_⟩
  exact h.inside.exclusive ht ht'

theorem registry_exclusive_takeOut :
    let st := (registryMonitor 1).concurrent.exec (programStart disk, fun _ => .idle) (takeOut 0)
    (st.1.registryLock = true ↔ ∃ t op point, st.2 t = .inside op point) ∧
      ∀ t op point t' op' point', st.2 t = .inside op point → st.2 t' = .inside op' point' → t = t' :=
  registry_exclusive (programStart disk) rfl (takeOut 0)

/-- What becomes of a thread that has the lock, when the calls answered before leave the registry as in `done`: it is
answered once it took so many steps itself, whatever steps the others take in between. When its call has no result it
keeps the lock, whatever steps are taken. -/
structure Proceeds (done : IoStack pool) (st : IoStack pool × (τ → Control (RegistryOp pool) (Point pool))) (t : τ)
    (op : RegistryOp pool) : Prop where
  answered : ∀ answer io', ioStep done op.toIoOp = some (answer, io') →
    ∀ more : List (τ × RegistryOp pool), pool + 6 < more.countP (fun move => move.1 = t) →
      ∃ rest, Monitor.answersTo t ((registryMonitor pool).concurrent.trace st more) = (op, answer) :: rest
  stuck : ioStep done op.toIoOp = none →
    ∀ more : List (τ × RegistryOp pool), ((registryMonitor pool).concurrent.exec st more).1.registryLock = true ∧
      ∃ point, ((registryMonitor pool).concurrent.exec st more).2 t = .inside op point

/-- A thread with the lock is answered in bounded time exactly when its call has a result in the order of the answers. -/
theorem registry_progress (io : IoStack pool) (hfree : io.registryLock = false) (moves : List (τ × RegistryOp pool))
    (hinside : ((registryMonitor pool).concurrent.exec (io, fun _ => .idle) moves).2 t = .inside op point) :
    ∃ done, (ioMachine pool).exec (some io)
        (answered ((registryMonitor pool).concurrent.trace (io, fun _ : τ => .idle) moves)) = some done ∧
      Proceeds done ((registryMonitor pool).concurrent.exec (io, fun _ => .idle) moves) t op := by
  obtain ⟨done, h, hexec, _⟩ := registry_linearized io hfree moves
  refine ⟨done, hexec, fun answer io' hstep more hmore => ?_, fun hnone more => ?_⟩
  · obtain ⟨henter, _, _⟩ := h.pending hinside
    obtain ⟨n, hn, hcompletes⟩ := ends_of_ioStep h.free henter hstep
    exact h.answered hinside hcompletes (Nat.lt_of_le_of_lt hn hmore)
  · obtain ⟨point', hholds⟩ := h.stuck (registryMonitor_implements pool) hinside hnone more
    exact ⟨hholds.held, point', hholds.inside⟩

theorem registry_progress_takeOut :
    ∃ done, (ioMachine 1).exec (some (programStart disk))
        (answered ((registryMonitor 1).concurrent.trace (programStart disk, fun _ : Bool => .idle) (takeOut 0))) = some done ∧
      Proceeds done ((registryMonitor 1).concurrent.exec (programStart disk, fun _ => .idle) (takeOut 0)) true
        (.unregister (some 0)) :=
  registry_progress (programStart disk) rfl (takeOut 0) rfl

/-- The registry stays a list while nobody registers a device that is in it. -/
theorem RegistryIs.exec {ops : List (IoOp pool)} (h : RegistryIs io devs)
    (honce : (ioMachine pool).Along (fun st op => ∀ io, st = some io → ¬ RegistersAgain io op) (some io) ops) :
    ∃ io' devs', (ioMachine pool).exec (some io) ops = some io' ∧ RegistryIs io' devs' := by
  induction ops generalizing io devs with
  | nil => exact ⟨io, devs, rfl, h⟩
  | cons op ops ih =>
      obtain ⟨hop, hrest⟩ := honce
      obtain ⟨answer, io', hstep, heffect⟩ := h.effect op
      obtain ⟨devs', h'⟩ := h.next heffect (hop io rfl)
      have hnext : (ioMachine pool).next (some io) op = some io' := Machine.ofPartial_next hstep
      rw [hnext] at hrest
      rw [Machine.exec_cons, hnext]
      exact ih h' hrest

/-- When the calls that were answered never registered a device that was in the registry, a thread with the lock is
answered once it took `pool + 7` steps, in every order of the steps. -/
theorem registry_answers (hregistry : RegistryIs io devs) (moves more : List (τ × RegistryOp pool))
    (honce : (ioMachine pool).Along (fun st op => ∀ io, st = some io → ¬ RegistersAgain io op) (some io)
      (answered ((registryMonitor pool).concurrent.trace (io, fun _ : τ => .idle) moves)))
    (hinside : ((registryMonitor pool).concurrent.exec (io, fun _ => .idle) moves).2 t = .inside op point)
    (hmore : pool + 6 < more.countP fun move => move.1 = t) :
    ∃ answer rest, Monitor.answersTo t ((registryMonitor pool).concurrent.trace
      ((registryMonitor pool).concurrent.exec (io, fun _ => .idle) moves) more) = (op, answer) :: rest := by
  obtain ⟨done, h, hexec, _⟩ := registry_linearized io hregistry.free moves
  obtain ⟨done', devs', hexec', hregistry'⟩ := hregistry.exec honce
  obtain rfl : done = done' := Option.some.inj (hexec.symm.trans hexec')
  obtain ⟨answer, io', hstep, _⟩ := hregistry'.effect op.toIoOp
  obtain ⟨henter, _, _⟩ := h.pending hinside
  obtain ⟨n, hn, hcompletes⟩ := ends_of_ioStep h.free henter hstep
  obtain ⟨rest, hrest⟩ := h.answered hinside hcompletes (Nat.lt_of_le_of_lt hn hmore)
  exact ⟨answer, rest, hrest⟩

theorem registry_answers_takeOut :
    ∃ answer rest, Monitor.answersTo true ((registryMonitor 1).concurrent.trace
      ((registryMonitor 1).concurrent.exec (programStart disk, fun _ => .idle) (takeOut 0))
      (List.replicate 8 (true, .find none))) = (.unregister (some 0), answer) :: rest := by
  have hanswered : answered ((registryMonitor 1).concurrent.trace (programStart disk, fun _ : Bool => .idle) (takeOut 0)) =
      [.register (some 0), .getByMajorMinor 1 0] := by decide +kernel
  refine registry_answers (.start disk) (takeOut 0) _ ?_ rfl (by decide)
  rw [hanswered]
  refine ⟨fun io hio hagain => ?_, fun io _ hagain => ?_, trivial⟩
  · cases hio
    obtain ⟨_, _, hdev⟩ := (RegistryIs.start disk).registersAgain_iff.mp hagain
    cases hdev
  · obtain ⟨_, _, hregisters, _⟩ := hagain
    simp [IoStack.Registers] at hregisters

end NovaOs.Io
