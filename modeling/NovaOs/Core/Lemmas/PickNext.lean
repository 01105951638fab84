import NovaOs.Core.Lemmas.Scheduler
import Mathlib.Data.List.MinMax
import Mathlib.Data.Prod.Lex

/-!
# The scan of `nova_sched_pick_next`

The scan prefers the higher priority, then the fewer quanta. It is the least element of the runnable slots
under the key of a thread, so the picked thread has the least key.
-/

namespace NovaOs.Core

open Lib

/-- Threads are preferred in the order of their keys. -/
def NovaThread.key (t : NovaThread) : ℕᵒᵈ ×ₗ ℕ := toLex (OrderDual.toDual t.priority.toNat, t.quanta.toNat)

theorem beats_iff {t u : NovaThread} : t.beats u = true ↔ t.key < u.key := by
  simp only [NovaThread.beats, NovaThread.key, Prod.Lex.toLex_lt_toLex, OrderDual.toDual_lt_toDual,
    OrderDual.toDual_inj, Bool.or_eq_true, Bool.and_eq_true, decide_eq_true_eq, beq_iff_eq, gt_iff_lt,
    UInt8.lt_iff_toNat_lt, UInt64.lt_iff_toNat_lt, UInt8.toNat_inj]

theorem key_le_of_priority_eq {t u : NovaThread} (h : t.key ≤ u.key) (hp : t.priority = u.priority) :
    t.quanta.toNat ≤ u.quanta.toNat := by
  rcases Prod.Lex.toLex_le_toLex.mp h with hlt | ⟨_, hle⟩
  · simp [hp] at hlt
  · exact hle

namespace NovaScheduler

variable {s : NovaScheduler} {i : Fin 32}

theorem selected_eq_argmin (s : NovaScheduler) :
    s.selected =
      ((List.finRange 32).filter fun i => (s.thread i).state = .runnable).argmin fun i => (s.thread i).key := by
  unfold selected
  rw [List.argmin, List.foldl_filter]
  refine congrArg (fun f => List.foldl f none _) (funext fun sel => funext fun i => ?_)
  by_cases hrun : (s.thread i).state = .runnable
  · cases sel with
    | none => simp [pickStep, hrun, List.argAux]
    | some current => simp [pickStep, hrun, List.argAux, beats_iff]
  · simp [pickStep, hrun]

theorem mem_runnable : i ∈ (List.finRange 32).filter (fun i => (s.thread i).state = .runnable) ↔
    (s.thread i).state = .runnable := by
  simp

theorem selected_eq_none_iff : s.selected = none ↔ ∀ i, (s.thread i).state ≠ .runnable := by
  rw [selected_eq_argmin, List.argmin_eq_none, List.filter_eq_nil_iff]
  simp

theorem runnable_of_selected (h : s.selected = some i) : (s.thread i).state = .runnable := by
  rw [selected_eq_argmin] at h
  exact mem_runnable.mp (List.argmin_mem h)

/-- The order of the scan: the higher priority, then the fewer quanta, then the lower slot. -/
def Before (s : NovaScheduler) (i j : Fin 32) : Prop :=
  (s.thread j).priority < (s.thread i).priority ∨ (s.thread i).priority = (s.thread j).priority ∧
    ((s.thread i).quanta < (s.thread j).quanta ∨ (s.thread i).quanta = (s.thread j).quanta ∧ i < j)

theorem before_iff {j : Fin 32} : s.Before i j ↔
    (s.thread i).key < (s.thread j).key ∨ (s.thread i).key = (s.thread j).key ∧ i < j := by
  simp only [Before, NovaThread.key, Prod.Lex.toLex_lt_toLex, OrderDual.toDual_lt_toDual, OrderDual.toDual_inj,
    toLex_inj, Prod.mk.injEq, UInt8.lt_iff_toNat_lt, UInt64.lt_iff_toNat_lt, UInt8.toNat_inj, UInt64.toNat_inj]
  tauto

theorem Before.asymm {j : Fin 32} (h : s.Before i j) : ¬ s.Before j i := by
  rw [before_iff] at h ⊢
  rintro (hlt | ⟨he, hlt⟩)
  · rcases h with hlt' | ⟨he', _⟩
    · exact lt_asymm hlt hlt'
    · exact hlt.ne he'.symm
  · rcases h with hlt' | ⟨_, hlt'⟩
    · exact hlt'.ne he.symm
    · exact lt_asymm hlt hlt'

theorem le_of_idxOf_le {n : Nat} {l : List (Fin n)} (hl : l.Pairwise (· < ·)) {i j : Fin n} (hi : i ∈ l) (hj : j ∈ l)
    (hle : l.idxOf i ≤ l.idxOf j) : i ≤ j := by
  rcases hle.eq_or_lt with he | hlt
  · exact ((List.idxOf_inj hi).mp he).le
  · have hlt' := List.pairwise_iff_getElem.mp hl _ _ (List.idxOf_lt_length_of_mem hi) (List.idxOf_lt_length_of_mem hj) hlt
    rw [List.getElem_idxOf, List.getElem_idxOf] at hlt'
    exact hlt'.le

theorem before_of_selected (h : s.selected = some i) {j : Fin 32} (hj : (s.thread j).state = .runnable) (hne : j ≠ i) :
    s.Before i j := by
  rw [selected_eq_argmin, List.argmin_eq_some_iff] at h
  obtain ⟨hi, hle, hfirst⟩ := h
  have hmem := mem_runnable.mpr hj
  rw [before_iff]
  rcases (hle j hmem).lt_or_eq with hlt | he
  · exact .inl hlt
  · have hslot := le_of_idxOf_le ((List.pairwise_lt_finRange 32).filter _) hi hmem (hfirst j hmem he.ge)
    exact .inr ⟨he, lt_of_le_of_ne hslot hne.symm⟩

theorem selected_eq_some_iff : s.selected = some i ↔
    (s.thread i).state = .runnable ∧ ∀ j, (s.thread j).state = .runnable → j ≠ i → s.Before i j := by
  constructor
  · exact fun h => ⟨runnable_of_selected h, fun j hj hne => before_of_selected h hj hne⟩
  · rintro ⟨hi, hbefore⟩
    cases hsel : s.selected with
    | none => exact absurd hi (selected_eq_none_iff.mp hsel i)
    | some j =>
        by_contra hne
        have hji : j ≠ i := fun he => hne (congrArg some he)
        exact (hbefore j (runnable_of_selected hsel) hji).asymm (before_of_selected hsel hi hji.symm)

theorem key_selected_le (h : s.selected = some i) {j : Fin 32} (hj : (s.thread j).state = .runnable) :
    (s.thread i).key ≤ (s.thread j).key := by
  rw [selected_eq_argmin] at h
  exact List.le_of_mem_argmin (f := fun i => (s.thread i).key) (mem_runnable.mpr hj) h

end NovaScheduler

/-! ## Schedule steps -/

/-- The id of a picked slot, read back as a `uint32_t`, names the slot, and it is not -1. -/
theorem picked_id {s : NovaScheduler} (h : SchedInv s) {i : Fin 32} (hi : s.selected = some i) :
    novaSchedPickNext s ≠ -1 ∧ slotOf (novaSchedPickNext s).toUInt32 = some i := by
  have hid := h i (by rw [s.runnable_of_selected hi]; decide)
  have hpick : (novaSchedPickNext s).toUInt32 = (s.thread i).id := by
    simp only [novaSchedPickNext, hi, UInt32.toUInt32_toInt32]
  refine ⟨fun hneg => ?_, by rw [hpick]; exact slotOf_eq_some_iff.mpr hid⟩
  have hminus : (-1 : Int32).toUInt32.toNat = 4294967295 := by decide
  rw [← hpick, hneg, hminus] at hid
  omega

theorem novaSchedule_cases {s : NovaScheduler} (h : SchedInv s) :
    ((∀ i, (s.thread i).state ≠ .runnable) ∧ novaSchedule s = s) ∨
    ∃ i, s.selected = some i ∧ novaSchedule s = s.charge i := by
  cases hsel : s.selected with
  | none =>
      refine .inl ⟨s.selected_eq_none_iff.mp hsel, ?_⟩
      simp only [novaSchedule, novaSchedPickNext, hsel, ne_eq, not_true_eq_false, ↓reduceIte]
  | some i =>
      obtain ⟨hne, hslot⟩ := picked_id h hsel
      refine .inr ⟨i, rfl, ?_⟩
      have hlive : (s.thread i).state ≠ .dead := by rw [s.runnable_of_selected hsel]; decide
      simp only [novaSchedule, novaSchedAccount, hne, hslot, hlive, ne_eq, not_false_eq_true, ↓reduceIte]

end NovaOs.Core
