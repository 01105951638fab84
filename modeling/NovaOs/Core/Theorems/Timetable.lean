import NovaOs.Core.Theorems.PickNext
import NovaOs.Lib.Timetable

/-!
# The timetable of the scheduler

While nothing but schedule steps is done, the threads of the highest priority are served least served first, so that it
can be said in advance which of them each step picks. Once their quanta are level they are picked in turns, in the order
of their slots.
-/

namespace NovaOs.Core

open Lib

variable {s : NovaScheduler} {i j : Fin 32} {k : Nat}

namespace NovaScheduler

/-- The quanta that the threads had. -/
def quanta (s : NovaScheduler) (i : Fin 32) : Nat := (s.thread i).quanta.toNat

theorem scheduled_succ_left (s : NovaScheduler) (k : Nat) : s.scheduled (k + 1) = (novaSchedule s).scheduled k := rfl

theorem least_of_selected (hsel : s.selected = some i) : Least s.top s.quanta i where
  mem := top_of_selected hsel
  le j hj hne := by
    have hi := top_of_selected hsel
    exact (before_iff_of_top hj hi).mp (before_of_selected hsel (mem_top.mp hj).1 hne)

theorem quanta_charge (hmax : s.quanta i < 2 ^ 64 - 1) :
    (s.charge i).quanta = Function.update s.quanta i (s.quanta i + 1) := by
  funext j
  rw [Function.update_apply]
  split
  · next he =>
      rw [he]
      exact quanta_charge_self hmax
  · next hne => exact congrArg UInt64.toNat (quanta_charge_of_ne hne)

/-- Schedule steps serve the threads of the highest priority. -/
theorem serves_scheduled (hinv : SchedInv s) (hi : i ∈ s.top) (hmax : ∀ j ∈ s.top, s.quanta j + k < 2 ^ 64) :
    ∃ served, Serves s.top s.quanta served (s.scheduled k).quanta ∧ served.length = k ∧
      ∀ m < k, (s.scheduled m).picks = served[m]? := by
  induction k generalizing s with
  | zero => exact ⟨[], .nil _, rfl, by simp⟩
  | succ k ih =>
      obtain ⟨l, hsel⟩ := exists_selected hi
      have hl := hmax l (top_of_selected hsel)
      have hstep := novaSchedule_of_selected hinv hsel
      have hquanta : (s.charge l).quanta = Function.update s.quanta l (s.quanta l + 1) := quanta_charge (by omega)
      have hmax' : ∀ j ∈ (s.charge l).top, (s.charge l).quanta j + k < 2 ^ 64 := by
        intro j hj
        rw [top_charge] at hj
        have hj' := hmax j hj
        rw [hquanta, Function.update_apply]
        split
        · omega
        · omega
      obtain ⟨served, hserves, hlen, hpicks⟩ := ih (inv_charge_selected hinv hsel) (by rwa [top_charge]) hmax'
      rw [top_charge, hquanta] at hserves
      refine ⟨l :: served, .cons (least_of_selected hsel) ?_, by rw [List.length_cons, hlen], fun m hm => ?_⟩
      · rwa [scheduled_succ_left, hstep]
      · cases m with
        | zero => exact (picks_eq_selected hinv).trans hsel
        | succ m =>
            rw [scheduled_succ_left, hstep, List.getElem?_cons_succ]
            exact hpicks m (by omega)

theorem scheduled_of_top_eq_empty (hinv : SchedInv s) (h : s.top = ∅) (k : Nat) : s.scheduled k = s := by
  induction k with
  | zero => rfl
  | succ k ih =>
      rcases novaSchedule_cases hinv with ⟨_, hsame⟩ | ⟨i, hsel, _⟩
      · rw [scheduled_succ_left, hsame, ih]
      · have hi := top_of_selected hsel
        rw [h] at hi
        cases hi

theorem picks_scheduled_iff (hinv : SchedInv s) (hmax : ∀ i ∈ s.top, s.quanta i + k + 1 < 2 ^ 64) :
    (s.scheduled k).picks = some j ↔ j ∈ s.top ∧ ∃ v, s.quanta j ≤ v ∧ slot s.top s.quanta j v = k := by
  rcases s.top.eq_empty_or_nonempty with hnone | ⟨i, hi⟩
  · rw [scheduled_of_top_eq_empty hinv hnone, picks_eq_selected hinv]
    refine iff_of_false (fun hsel => ?_) (by simp [hnone])
    have hj := top_of_selected hsel
    rw [hnone] at hj
    cases hj
  · have hlast : ∀ j ∈ s.top, s.quanta j + (k + 1) < 2 ^ 64 := hmax
    obtain ⟨served, hserves, hlen, hpicks⟩ := serves_scheduled hinv hi hlast
    rw [hpicks k (Nat.lt_succ_self k)]
    exact hserves.getElem?_iff (by omega)

end NovaScheduler

theorem SchedReachable.inv (hs : SchedReachable s) : SchedInv s := by
  obtain ⟨memory, ops, hrun⟩ := hs
  rw [hrun]
  exact .exec memory ops

/-- Which thread a step picks can be told by the quanta at the start: a thread of the highest priority that has had `v`
quanta is picked again once each of the others was brought up to `v`, and past it if it is in a lower slot. -/
theorem sched_timetable (hs : SchedReachable s) (hmax : ∀ i ∈ s.top, s.quanta i + k + 1 < 2 ^ 64) :
    (s.scheduled k).picks = some j ↔ j ∈ s.top ∧ ∃ v, s.quanta j ≤ v ∧ slot s.top s.quanta j v = k :=
  NovaScheduler.picks_scheduled_iff hs.inv hmax

theorem sched_timetable_three :
    (threeThreads.scheduled 6).picks = some 2 ↔
      2 ∈ threeThreads.top ∧ ∃ v, threeThreads.quanta 2 ≤ v ∧ slot threeThreads.top threeThreads.quanta 2 v = 6 :=
  sched_timetable ⟨zeroedScheduler, _, rfl⟩ (by decide +kernel)

/-- Once the threads of the highest priority are level they are picked in turns, the lower slot first. -/
theorem sched_round_robin (hs : SchedReachable s) {level m : Nat} (hlevel : ∀ i ∈ s.top, s.quanta i ≤ level)
    (hmax : level + (∑ i ∈ s.top, (level - s.quanta i) + m) + 1 < 2 ^ 64) :
    (s.scheduled (∑ i ∈ s.top, (level - s.quanta i) + m)).picks = some j ↔
      j ∈ s.top ∧ (s.top.filter (· < j)).card = m % s.top.card := by
  have hmax' : ∀ i ∈ s.top, s.quanta i + (∑ i ∈ s.top, (level - s.quanta i) + m) + 1 < 2 ^ 64 := by
    intro i hi
    have hle := hlevel i hi
    omega
  rw [NovaScheduler.picks_scheduled_iff hs.inv hmax', slot_level_iff hlevel]

/-- The third of three threads is two quanta ahead: four steps bring the others up to it. -/
theorem sched_round_robin_three :
    (threeThreads.scheduled (∑ i ∈ threeThreads.top, (2 - threeThreads.quanta i) + 5)).picks = some 2 ↔
      2 ∈ threeThreads.top ∧ (threeThreads.top.filter (· < 2)).card = 5 % threeThreads.top.card :=
  sched_round_robin ⟨zeroedScheduler, _, rfl⟩ (by decide +kernel) (by decide +kernel)

end NovaOs.Core
