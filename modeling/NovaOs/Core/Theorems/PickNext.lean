import NovaOs.Core.Theorems.Scheduler
import Mathlib.Algebra.BigOperators.Group.Finset.Piecewise

/-!
# Which thread is picked, and when

The thread that is picked is before all other runnable ones, and nothing else matters to it. A thread of the highest
priority waits for the others of its priority that are not ahead of it, and for no one else.
-/

namespace NovaOs.Core

open Lib

variable {s t : NovaScheduler} {i j : Fin 32}

/-! ## The thread that is picked -/

/-- What `nova_sched_pick_next` returns: -1 without a runnable thread, and otherwise the id of the first of them, which
is from 1 to 32 and by which the other calls find it. -/
structure PickMeets (s : NovaScheduler) : Prop where
  none_iff : novaSchedPickNext s = -1 ↔ ∀ i, (s.thread i).state ≠ .runnable
  best : (∃ i, (s.thread i).state = .runnable) → ∃ i, (s.thread i).state = .runnable ∧
    (∀ j, (s.thread j).state = .runnable → j ≠ i → s.Before i j) ∧
    novaSchedPickNext s = (s.thread i).id.toInt32 ∧ (novaSchedPickNext s).toInt = i + 1 ∧
    (∀ state, novaSchedSetState s (novaSchedPickNext s).toUInt32 state = (.ok, s.mark i state)) ∧
    novaSchedAccount s (novaSchedPickNext s).toUInt32 = s.charge i
  others : ∀ t : NovaScheduler, (∀ i, (t.thread i).state = .runnable ↔ (s.thread i).state = .runnable) →
    (∀ i, (s.thread i).state = .runnable → t.thread i = s.thread i) → novaSchedPickNext t = novaSchedPickNext s

theorem novaSchedPickNext_of_selected (h : s.selected = some i) : novaSchedPickNext s = (s.thread i).id.toInt32 := by
  simp only [novaSchedPickNext, h]

theorem selected_congr (hstate : ∀ i, (t.thread i).state = .runnable ↔ (s.thread i).state = .runnable)
    (hthread : ∀ i, (s.thread i).state = .runnable → t.thread i = s.thread i) : t.selected = s.selected := by
  cases hsel : s.selected with
  | none =>
      rw [NovaScheduler.selected_eq_none_iff] at hsel ⊢
      intro i hi
      exact hsel i ((hstate i).mp hi)
  | some i =>
      rw [NovaScheduler.selected_eq_some_iff] at hsel ⊢
      refine ⟨(hstate i).mpr hsel.1, fun j hj hne => ?_⟩
      have hj' := (hstate j).mp hj
      rw [NovaScheduler.Before, hthread i hsel.1, hthread j hj']
      exact hsel.2 j hj' hne

theorem novaSchedPickNext_congr (hstate : ∀ i, (t.thread i).state = .runnable ↔ (s.thread i).state = .runnable)
    (hthread : ∀ i, (s.thread i).state = .runnable → t.thread i = s.thread i) :
    novaSchedPickNext t = novaSchedPickNext s := by
  have hsame := selected_congr hstate hthread
  cases hsel : s.selected with
  | none => simp only [novaSchedPickNext, hsame, hsel]
  | some i =>
      rw [novaSchedPickNext_of_selected hsel, novaSchedPickNext_of_selected (hsame.trans hsel),
        hthread i (s.runnable_of_selected hsel)]

theorem novaSchedSetState_of_slot {id : UInt32} (hslot : slotOf id = some i) (hi : (s.thread i).state ≠ .dead) (state) :
    novaSchedSetState s id state = (.ok, s.mark i state) := by
  rcases novaSchedSetState_cases s id state with ⟨hdead, _⟩ | ⟨j, hj, _, hr⟩
  · exact absurd (hdead i hslot) hi
  · rw [hr, Option.some.inj (hj.symm.trans hslot)]

theorem novaSchedAccount_of_slot {id : UInt32} (hslot : slotOf id = some i) (hi : (s.thread i).state ≠ .dead) :
    novaSchedAccount s id = s.charge i := by
  rcases novaSchedAccount_cases s id with ⟨hdead, _⟩ | ⟨j, hj, _, hr⟩
  · exact absurd (hdead i hslot) hi
  · rw [hr, Option.some.inj (hj.symm.trans hslot)]

theorem toInt_toInt32 {id : UInt32} (h : id.toNat < 2 ^ 31) : id.toInt32.toInt = id.toNat := by
  have hbits : id.toBitVec.toNat = id.toNat := rfl
  rw [← Int32.toInt_toBitVec, UInt32.toBitVec_toInt32, BitVec.toInt_eq_toNat_of_lt (by omega)]
  rfl

/-- In every state that the calls lead to, the right thread is picked. -/
theorem sched_picks_first (memory : NovaScheduler) (ops : List SchedOp) :
    PickMeets (schedMachine.exec (novaSchedInit memory) ops) := by
  have hinv := SchedInv.exec memory ops
  generalize schedMachine.exec (novaSchedInit memory) ops = s at hinv
  constructor
  · rw [← s.selected_eq_none_iff]
    cases hsel : s.selected with
    | none => simp [novaSchedPickNext, hsel]
    | some i => simp [(picked_id hinv hsel).1]
  · rintro ⟨i₀, hi₀⟩
    cases hsel : s.selected with
    | none => exact absurd hi₀ (s.selected_eq_none_iff.mp hsel i₀)
    | some i =>
        obtain ⟨hi, hbefore⟩ := s.selected_eq_some_iff.mp hsel
        have hlive : (s.thread i).state ≠ .dead := by
          rw [hi]
          decide
        have hslot := (picked_id hinv hsel).2
        have hid := hinv i hlive
        refine ⟨i, hi, hbefore, novaSchedPickNext_of_selected hsel, ?_, novaSchedSetState_of_slot hslot hlive,
          novaSchedAccount_of_slot hslot hlive⟩
        rw [novaSchedPickNext_of_selected hsel, toInt_toInt32 (by omega), hid]
        rfl
  · exact fun t => novaSchedPickNext_congr

/-! ## The time a thread waits -/

namespace NovaScheduler

variable (s : NovaScheduler) (i : Fin 32)

/-- The runnable threads of the highest priority. -/
def top : Finset (Fin 32) :=
  Finset.univ.filter fun i => (s.thread i).state = .runnable ∧
    ∀ j, (s.thread j).state = .runnable → (s.thread j).priority ≤ (s.thread i).priority

/-- The other threads of the highest priority that are not ahead of `i`. -/
def rivals : Finset (Fin 32) := s.top.filter fun j => j ≠ i ∧ (s.thread j).quanta ≤ (s.thread i).quanta

/-- What the rivals are behind, and one for each in a lower slot. -/
def waiting : Nat :=
  ∑ j ∈ s.rivals i, ((s.thread i).quanta.toNat - (s.thread j).quanta.toNat) + ((s.rivals i).filter (· < i)).card

/-- The state after `k` schedule steps. -/
def scheduled (k : Nat) : NovaScheduler := stepMachine.exec s (List.replicate k .schedule)

/-- The slot whose thread the next schedule step accounts. -/
def picks : Option (Fin 32) := slotOf (novaSchedPickNext s).toUInt32

/-- How often `i` is picked in the first `k` schedule steps. -/
def served (k : Nat) : Nat := (List.range k).countP fun m => (s.scheduled m).picks = some i

/-- What `i` waits for `j`. -/
def share (j : Fin 32) : Nat :=
  if j ∈ s.rivals i then (s.thread i).quanta.toNat - (s.thread j).quanta.toNat + if j < i then 1 else 0 else 0

variable {s i}

theorem mem_top : i ∈ s.top ↔ (s.thread i).state = .runnable ∧
    ∀ j, (s.thread j).state = .runnable → (s.thread j).priority ≤ (s.thread i).priority := by
  simp [top]

theorem mem_rivals : j ∈ s.rivals i ↔ j ∈ s.top ∧ j ≠ i ∧ (s.thread j).quanta ≤ (s.thread i).quanta := by
  simp [rivals]

theorem waiting_eq_sum : s.waiting i = ∑ j, s.share i j := by
  simp only [share]
  rw [Finset.sum_ite_mem, Finset.univ_inter, Finset.sum_add_distrib, waiting, Finset.card_filter]

theorem priority_eq_of_top (hi : i ∈ s.top) (hj : j ∈ s.top) : (s.thread i).priority = (s.thread j).priority :=
  UInt8.le_antisymm ((mem_top.mp hj).2 i (mem_top.mp hi).1) ((mem_top.mp hi).2 j (mem_top.mp hj).1)

theorem top_of_selected (hsel : s.selected = some i) : i ∈ s.top := by
  obtain ⟨hi, hbefore⟩ := selected_eq_some_iff.mp hsel
  refine mem_top.mpr ⟨hi, fun j hj => ?_⟩
  by_cases hji : j = i
  · rw [hji]
    exact UInt8.le_refl _
  · rcases hbefore j hj hji with hlt | ⟨he, _⟩
    · exact UInt8.le_of_lt hlt
    · rw [he]
      exact UInt8.le_refl _

theorem before_iff_of_top (hi : i ∈ s.top) (hj : j ∈ s.top) : s.Before j i ↔
    (s.thread j).quanta.toNat < (s.thread i).quanta.toNat ∨
      (s.thread j).quanta.toNat = (s.thread i).quanta.toNat ∧ j < i := by
  have he := priority_eq_of_top hi hj
  simp only [Before, he, UInt64.lt_iff_toNat_lt, UInt64.toNat_inj, true_and]
  simp

theorem share_of_top (hj : j ∈ s.top) (hne : j ≠ i) : s.share i j =
    if (s.thread j).quanta.toNat ≤ (s.thread i).quanta.toNat then
      (s.thread i).quanta.toNat - (s.thread j).quanta.toNat + if j < i then 1 else 0
    else 0 := by
  simp only [share, mem_rivals, hj, hne, UInt64.le_iff_toNat_le, ne_eq, not_false_eq_true, true_and]

theorem share_pos_iff (hi : i ∈ s.top) (hj : j ∈ s.top) (hne : j ≠ i) : 0 < s.share i j ↔ s.Before j i := by
  rw [share_of_top hj hne, before_iff_of_top hi hj]
  by_cases hslot : j < i
  · simp only [hslot, ↓reduceIte, and_true]
    split <;> omega
  · simp only [hslot, ↓reduceIte, and_false, or_false]
    split <;> omega

theorem share_of_not_top (h : j ∉ s.top ∨ j = i) : s.share i j = 0 := by
  rw [share, if_neg]
  rw [mem_rivals]
  tauto

/-- A thread of the highest priority is picked when there is nothing to wait for. -/
theorem selected_iff_waiting (hi : i ∈ s.top) : s.selected = some i ↔ s.waiting i = 0 := by
  rw [waiting_eq_sum, Finset.sum_eq_zero_iff]
  constructor
  · intro hsel j _
    by_contra hpos
    have hj : j ∈ s.top ∧ j ≠ i := by
      by_contra hnot
      exact hpos (share_of_not_top (by tauto))
    have hbefore := (share_pos_iff hi hj.1 hj.2).mp (Nat.pos_of_ne_zero hpos)
    exact hbefore.asymm (before_of_selected hsel (mem_top.mp hj.1).1 hj.2)
  · intro hzero
    cases hsel : s.selected with
    | none => exact absurd (mem_top.mp hi).1 (selected_eq_none_iff.mp hsel i)
    | some j =>
        by_contra hne
        have hji : j ≠ i := fun he => hne (congrArg some he)
        have hbefore := before_of_selected hsel (mem_top.mp hi).1 hji.symm
        have hpos := (share_pos_iff hi (top_of_selected hsel) hji).mpr hbefore
        rw [hzero j (Finset.mem_univ j)] at hpos
        exact absurd hpos (lt_irrefl 0)

/-! ### One schedule step -/

theorem top_charge (s : NovaScheduler) (k : Fin 32) : (s.charge k).top = s.top := by
  simp only [top, state_charge, priority_charge]

/-- The thread that is picked instead of `i` comes one quantum nearer to it, or ahead of it. -/
theorem share_charge_self (hi : i ∈ s.top) (hsel : s.selected = some j) (hne : j ≠ i)
    (hmax : (s.thread i).quanta.toNat < 2 ^ 64 - 1) : (s.charge j).share i j + 1 = s.share i j := by
  have hj := top_of_selected hsel
  have hbefore := before_of_selected hsel (mem_top.mp hi).1 hne.symm
  rw [before_iff_of_top hi hj] at hbefore
  have hself : ((s.charge j).thread j).quanta.toNat = (s.thread j).quanta.toNat + 1 := quanta_charge_self (by omega)
  have hj' : j ∈ (s.charge j).top := by rwa [top_charge]
  rw [share_of_top hj' hne, share_of_top hj hne, hself, quanta_charge_of_ne hne.symm]
  by_cases hslot : j < i
  · simp only [hslot, and_true, ↓reduceIte] at hbefore ⊢
    split <;> split <;> omega
  · simp only [hslot, and_false, or_false, ↓reduceIte] at hbefore ⊢
    split <;> split <;> omega

theorem share_charge_of_ne {k : Fin 32} (hki : k ≠ i) (hkj : j ≠ k) : (s.charge k).share i j = s.share i j := by
  simp only [share, mem_rivals, top_charge, quanta_charge_of_ne hki.symm, quanta_charge_of_ne hkj]

theorem waiting_charge (hi : i ∈ s.top) (hsel : s.selected = some j) (hne : j ≠ i)
    (hmax : (s.thread i).quanta.toNat < 2 ^ 64 - 1) : (s.charge j).waiting i + 1 = s.waiting i := by
  have hothers : ∑ k ∈ Finset.univ.erase j, (s.charge j).share i k = ∑ k ∈ Finset.univ.erase j, s.share i k := by
    apply Finset.sum_congr rfl
    intro k hk
    exact share_charge_of_ne hne (Finset.ne_of_mem_erase hk)
  have hself := share_charge_self hi hsel hne hmax
  rw [waiting_eq_sum, waiting_eq_sum, ← Finset.add_sum_erase _ _ (Finset.mem_univ j),
    ← Finset.add_sum_erase _ (fun k => s.share i k) (Finset.mem_univ j), hothers]
  omega

/-! ### Schedule steps only -/

theorem scheduled_succ (s : NovaScheduler) (k : Nat) : s.scheduled (k + 1) = novaSchedule (s.scheduled k) := by
  rw [scheduled, List.replicate_succ', Machine.exec_append]
  rfl

/-- The state while `i` waits. -/
structure Waits (s t : NovaScheduler) (i : Fin 32) (k : Nat) : Prop where
  inv : SchedInv t
  top : i ∈ t.top
  quanta : (t.thread i).quanta = (s.thread i).quanta
  waiting : t.waiting i + k = s.waiting i

theorem exists_selected (hi : i ∈ s.top) : ∃ j, s.selected = some j := by
  cases hsel : s.selected with
  | none => exact absurd (mem_top.mp hi).1 (selected_eq_none_iff.mp hsel i)
  | some j => exact ⟨j, rfl⟩

theorem novaSchedule_of_selected (hinv : SchedInv s) (hsel : s.selected = some i) : novaSchedule s = s.charge i := by
  rcases novaSchedule_cases hinv with ⟨hnone, _⟩ | ⟨j, hj, hr⟩
  · exact absurd (runnable_of_selected hsel) (hnone i)
  · rw [hr, Option.some.inj (hj.symm.trans hsel)]

theorem inv_charge_selected (hinv : SchedInv s) (hsel : s.selected = some i) : SchedInv (s.charge i) := by
  apply hinv.charge
  rw [runnable_of_selected hsel]
  decide

theorem picks_eq_selected (hinv : SchedInv s) : s.picks = s.selected := by
  cases hsel : s.selected with
  | none =>
      simp only [picks, novaSchedPickNext, hsel]
      decide
  | some i => exact (picked_id hinv hsel).2

theorem Waits.scheduled (hs : SchedInv s) (hi : i ∈ s.top) (hmax : (s.thread i).quanta.toNat < 2 ^ 64 - 1) {k : Nat}
    (hk : k ≤ s.waiting i) : Waits s (s.scheduled k) i k := by
  induction k with
  | zero => exact ⟨hs, hi, rfl, rfl⟩
  | succ k ih =>
      have h := ih (by omega)
      have hwaits := h.waiting
      have hnot : (s.scheduled k).selected ≠ some i := by
        rw [ne_eq, selected_iff_waiting h.top]
        omega
      obtain ⟨j, hsel⟩ := exists_selected h.top
      have hne : j ≠ i := by
        rintro rfl
        exact hnot hsel
      have hless := waiting_charge h.top hsel hne (by rwa [h.quanta])
      rw [scheduled_succ, novaSchedule_of_selected h.inv hsel]
      constructor
      · exact inv_charge_selected h.inv hsel
      · rw [top_charge]
        exact h.top
      · rw [quanta_charge_of_ne hne.symm]
        exact h.quanta
      · omega

/-! ### Turns -/

theorem served_succ (s : NovaScheduler) (i : Fin 32) (k : Nat) :
    s.served i (k + 1) = s.served i k + if (s.scheduled k).picks = some i then 1 else 0 := by
  simp [served, List.range_succ]

/-- Two threads of the highest priority that started with the same quanta: the one in the lower slot is served first,
and then the other. -/
structure Turns (s t : NovaScheduler) (i j : Fin 32) (k : Nat) : Prop where
  inv : SchedInv t
  left : i ∈ t.top
  right : j ∈ t.top
  first : (t.thread i).quanta.toNat = (s.thread i).quanta.toNat + s.served i k
  second : (t.thread j).quanta.toNat = (s.thread i).quanta.toNat + s.served j k
  turn : s.served i k = s.served j k ∨ s.served i k = s.served j k + 1

theorem Turns.next {k : Nat} (h : Turns s (s.scheduled k) i j k) (hij : i < j)
    (hmax : ((s.scheduled k).thread i).quanta.toNat < 2 ^ 64 - 1) : Turns s (s.scheduled (k + 1)) i j (k + 1) := by
  obtain ⟨hinv, hleft, hright, hfirst, hsecond, hturn⟩ := h
  obtain ⟨l, hsel⟩ := exists_selected hleft
  have hpicks := (picks_eq_selected hinv).trans hsel
  have hi := served_succ s i k
  have hj := served_succ s j k
  rw [hpicks] at hi hj
  rw [scheduled_succ, novaSchedule_of_selected hinv hsel]
  have hinv' := inv_charge_selected hinv hsel
  by_cases hli : l = i
  · subst hli
    have hbefore := before_of_selected hsel (mem_top.mp hright).1 hij.ne'
    rw [before_iff_of_top hright hleft] at hbefore
    have hself := quanta_charge_self hmax
    have hother := quanta_charge_of_ne (s := s.scheduled k) hij.ne'
    simp only [Option.some.injEq, hij.ne, ↓reduceIte] at hi hj
    refine ⟨hinv', by rwa [top_charge], by rwa [top_charge], ?_, ?_, ?_⟩
    · omega
    · rw [hother]
      omega
    · omega
  · by_cases hlj : l = j
    · subst hlj
      have hbefore := before_of_selected hsel (mem_top.mp hleft).1 (Ne.symm hli)
      rw [before_iff_of_top hleft hright] at hbefore
      have hnot : ¬ l < i := hij.asymm
      simp only [hnot, and_false, or_false] at hbefore
      have hself := quanta_charge_self (s := s.scheduled k) (i := l) (by omega)
      have hother := quanta_charge_of_ne (s := s.scheduled k) (Ne.symm hli)
      simp only [Option.some.injEq, hli, ↓reduceIte] at hi hj
      refine ⟨hinv', by rwa [top_charge], by rwa [top_charge], ?_, ?_, ?_⟩
      · rw [hother]
        omega
      · omega
      · omega
    · have hkept := quanta_charge_of_ne (s := s.scheduled k) (Ne.symm hli)
      have hkept' := quanta_charge_of_ne (s := s.scheduled k) (Ne.symm hlj)
      simp only [Option.some.injEq, hli, hlj, ↓reduceIte] at hi hj
      refine ⟨hinv', by rwa [top_charge], by rwa [top_charge], ?_, ?_, ?_⟩
      · rw [hkept]
        omega
      · rw [hkept']
        omega
      · omega

theorem Turns.scheduled (hs : SchedInv s) (hi : i ∈ s.top) (hj : j ∈ s.top) (hij : i < j)
    (hsame : (s.thread i).quanta = (s.thread j).quanta) {k : Nat}
    (hmax : ∀ m < k, ((s.scheduled m).thread i).quanta.toNat < 2 ^ 64 - 1) : Turns s (s.scheduled k) i j k := by
  induction k with
  | zero => exact ⟨hs, hi, hj, rfl, by rw [hsame]; rfl, .inl rfl⟩
  | succ k ih =>
      have h := ih fun m hm => hmax m (Nat.lt_succ_of_lt hm)
      exact h.next hij (hmax k (Nat.lt_succ_self k))

end NovaScheduler

/-- When only schedule steps follow, a thread of the highest priority is picked for the first time after the others have
had what they are behind, and threads that start with the same quanta are served in turns, the lower slot first. -/
theorem sched_waiting_time (hs : SchedReachable s) (hi : i ∈ s.top) (hmax : (s.thread i).quanta.toNat < 2 ^ 64 - 1) :
    (∀ k < s.waiting i, (s.scheduled k).picks ≠ some i) ∧ (s.scheduled (s.waiting i)).picks = some i ∧
    ∀ j ∈ s.top, i < j → (s.thread i).quanta = (s.thread j).quanta →
      ∀ k, (∀ m < k, ((s.scheduled m).thread i).quanta.toNat < 2 ^ 64 - 1) →
        s.served i k = s.served j k ∨ s.served i k = s.served j k + 1 := by
  obtain ⟨memory, ops, hrun⟩ := hs
  have hinv : SchedInv s := by
    rw [hrun]
    exact .exec memory ops
  refine ⟨fun k hk => ?_, ?_, fun j hj hij hsame k hmax' => ?_⟩
  · have h := NovaScheduler.Waits.scheduled hinv hi hmax hk.le
    have hwaits := h.waiting
    rw [ne_eq, NovaScheduler.picks_eq_selected h.inv, NovaScheduler.selected_iff_waiting h.top]
    omega
  · have h := NovaScheduler.Waits.scheduled hinv hi hmax le_rfl
    have hwaits := h.waiting
    rw [NovaScheduler.picks_eq_selected h.inv, NovaScheduler.selected_iff_waiting h.top]
    omega
  · exact (NovaScheduler.Turns.scheduled hinv hi hj hij hsame hmax').turn

/-- Three threads of one priority, the last charged twice. -/
def threeThreads : NovaScheduler :=
  schedMachine.exec (novaSchedInit zeroedScheduler) [.add 10 0, .add 10 0, .add 10 0, .account 3, .account 3]

theorem sched_waiting_time_three :
    (∀ k < 6, (threeThreads.scheduled k).picks ≠ some 2) ∧ (threeThreads.scheduled 6).picks = some 2 ∧
      (threeThreads.served 0 3 = threeThreads.served 1 3 ∨ threeThreads.served 0 3 = threeThreads.served 1 3 + 1) := by
  have hwaiting : threeThreads.waiting 2 = 6 := by decide +kernel
  have hlast := sched_waiting_time (s := threeThreads) (i := 2) ⟨zeroedScheduler, _, rfl⟩ (by decide +kernel)
    (by decide +kernel)
  have hfirst := sched_waiting_time (s := threeThreads) (i := 0) ⟨zeroedScheduler, _, rfl⟩ (by decide +kernel)
    (by decide +kernel)
  rw [hwaiting] at hlast
  refine ⟨hlast.1, hlast.2.1, ?_⟩
  exact hfirst.2.2 1 (by decide +kernel) (by decide) (by decide +kernel) 3 (by decide +kernel)

end NovaOs.Core
