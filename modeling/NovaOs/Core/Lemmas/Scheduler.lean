import NovaOs.Core.Scheduler

/-!
# The slots of a scheduler and the map of its live threads

Every call changes at most one slot. Under `SchedInv` the id a slot stores names the slot, so the calls act on
the map of live threads as their abstract counterparts do.
-/

namespace NovaOs.Core

open Lib

/-! ## Slots -/

namespace NovaScheduler

variable (s : NovaScheduler) (i j : Fin 32)

@[simp] theorem thread_setThread (t : NovaThread) :
    (s.setThread i t).thread j = if j = i then t else s.thread j := by
  simp only [thread, setThread, Fin.getElem_fin, Vector.getElem_set, Fin.val_inj, eq_comm]

@[simp] theorem thread_spawn (priority : UInt8) :
    (s.spawn i priority).thread j =
      if j = i then ⟨UInt32.ofNat i + 1, priority, 0, .runnable⟩ else s.thread j :=
  thread_setThread ..

@[simp] theorem thread_mark (state : NovaThreadState) :
    (s.mark i state).thread j = if j = i then { s.thread i with state := state } else s.thread j :=
  thread_setThread ..

@[simp] theorem thread_charge :
    (s.charge i).thread j =
      if j = i then { s.thread i with quanta := (s.thread i).quanta + 1 } else s.thread j :=
  thread_setThread ..

@[simp] theorem thread_init : (novaSchedInit s).thread i = { s.thread i with state := .dead } := by
  simp [thread, novaSchedInit]

end NovaScheduler

theorem slotOf_eq_some_iff {id : UInt32} {i : Fin 32} : slotOf id = some i ↔ id.toNat = i + 1 := by
  unfold slotOf
  split
  · simp only [reduceCtorEq, false_iff]; omega
  · simp only [Option.some.injEq, Fin.ext_iff]; omega

theorem slotOf_eq_none_iff {id : UInt32} : slotOf id = none ↔ id.toNat ∉ Finset.Icc 1 32 := by
  simp only [slotOf, dite_eq_left_iff, reduceCtorEq, imp_false, not_not, Finset.mem_Icc]
  omega

theorem toNat_ofNat_add_one (i : Fin 32) : (UInt32.ofNat i + 1).toNat = i + 1 := by
  simp only [UInt32.toNat_add, UInt32.toNat_ofNat', UInt32.toNat_one]
  omega

theorem toNat_add_one {q : UInt64} (h : q.toNat < 2 ^ 64 - 1) : (q + 1).toNat = q.toNat + 1 := by
  rw [UInt64.toNat_add, UInt64.toNat_one]
  omega

namespace NovaScheduler

variable (s : NovaScheduler) (i j : Fin 32)

theorem state_charge : ((s.charge i).thread j).state = (s.thread j).state := by
  rw [thread_charge]
  split
  · next he => rw [he]
  · rfl

theorem priority_charge : ((s.charge i).thread j).priority = (s.thread j).priority := by
  rw [thread_charge]
  split
  · next he => rw [he]
  · rfl

variable {s i j}

theorem quanta_charge_of_ne (hne : j ≠ i) : ((s.charge i).thread j).quanta = (s.thread j).quanta := by
  rw [thread_charge, if_neg hne]

theorem quanta_charge_self (hmax : (s.thread i).quanta.toNat < 2 ^ 64 - 1) :
    ((s.charge i).thread i).quanta.toNat = (s.thread i).quanta.toNat + 1 := by
  rw [thread_charge, if_pos rfl]
  exact toNat_add_one hmax

end NovaScheduler

/-! ## What one call can do -/

theorem firstDead_eq_none_iff {s : NovaScheduler} : s.firstDead = none ↔ ∀ i, (s.thread i).state ≠ .dead := by
  unfold NovaScheduler.firstDead
  rw [Fin.find?_eq_none_iff]
  simp only [decide_eq_false_iff_not]

theorem firstDead_eq_some_iff {s : NovaScheduler} {i : Fin 32} :
    s.firstDead = some i ↔ (s.thread i).state = .dead ∧ ∀ j < i, (s.thread j).state ≠ .dead := by
  unfold NovaScheduler.firstDead
  rw [Fin.find?_eq_some_iff]
  simp only [decide_eq_false_iff_not, decide_eq_true_eq]

theorem novaSchedAdd_cases (s : NovaScheduler) (priority id) :
    ((∀ i, (s.thread i).state ≠ .dead) ∧ novaSchedAdd s priority id = (.full, s, id)) ∨
    ∃ i, (s.thread i).state = .dead ∧ (∀ j < i, (s.thread j).state ≠ .dead) ∧
      novaSchedAdd s priority id = (.ok, s.spawn i priority, UInt32.ofNat i + 1) := by
  cases hfind : s.firstDead with
  | none => exact .inl ⟨firstDead_eq_none_iff.mp hfind, by simp only [novaSchedAdd, hfind]⟩
  | some i =>
      obtain ⟨hi, hlt⟩ := firstDead_eq_some_iff.mp hfind
      refine .inr ⟨i, hi, hlt, ?_⟩
      simp only [novaSchedAdd, hfind, NovaScheduler.thread_spawn, ↓reduceIte]

theorem novaSchedSetState_cases (s : NovaScheduler) (id state) :
    ((∀ i, slotOf id = some i → (s.thread i).state = .dead) ∧ novaSchedSetState s id state = (.notFound, s)) ∨
    ∃ i, slotOf id = some i ∧ (s.thread i).state ≠ .dead ∧
      novaSchedSetState s id state = (.ok, s.mark i state) := by
  cases hslot : slotOf id with
  | none => exact .inl ⟨by simp, by simp only [novaSchedSetState, hslot]⟩
  | some i =>
      by_cases hdead : (s.thread i).state = .dead
      · refine .inl ⟨fun j hj => by cases hj; exact hdead, ?_⟩
        simp only [novaSchedSetState, hslot, hdead, ↓reduceIte]
      · refine .inr ⟨i, rfl, hdead, ?_⟩
        simp only [novaSchedSetState, hslot, hdead, ↓reduceIte]

theorem novaSchedAccount_cases (s : NovaScheduler) (id) :
    ((∀ i, slotOf id = some i → (s.thread i).state = .dead) ∧ novaSchedAccount s id = s) ∨
    ∃ i, slotOf id = some i ∧ (s.thread i).state ≠ .dead ∧ novaSchedAccount s id = s.charge i := by
  cases hslot : slotOf id with
  | none => exact .inl ⟨by simp, by simp only [novaSchedAccount, hslot]⟩
  | some i =>
      by_cases hdead : (s.thread i).state = .dead
      · refine .inl ⟨fun j hj => by cases hj; exact hdead, ?_⟩
        simp only [novaSchedAccount, hslot, hdead, ne_eq, not_true_eq_false, ↓reduceIte]
      · refine .inr ⟨i, rfl, hdead, ?_⟩
        simp only [novaSchedAccount, hslot, hdead, ne_eq, not_false_eq_true, ↓reduceIte]

@[simp] theorem schedMachine_next_add (s : NovaScheduler) (priority id) :
    schedMachine.next s (.add priority id) = (novaSchedAdd s priority id).2.1 := rfl

@[simp] theorem schedMachine_out_add (s : NovaScheduler) (priority id) :
    schedMachine.out s (.add priority id) =
      (some (novaSchedAdd s priority id).1, some (novaSchedAdd s priority id).2.2) := rfl

@[simp] theorem schedMachine_next_setState (s : NovaScheduler) (id state) :
    schedMachine.next s (.setState id state) = (novaSchedSetState s id state).2 := rfl

@[simp] theorem schedMachine_out_setState (s : NovaScheduler) (id state) :
    schedMachine.out s (.setState id state) = (some (novaSchedSetState s id state).1, none) := rfl

@[simp] theorem schedMachine_next_account (s : NovaScheduler) (id) :
    schedMachine.next s (.account id) = novaSchedAccount s id := rfl

/-! ## The ids that the slots store -/

/-- A live slot stores the id that names it. -/
def SchedInv (s : NovaScheduler) : Prop :=
  ∀ i, (s.thread i).state ≠ .dead → (s.thread i).id.toNat = i + 1

theorem SchedInv.init (memory : NovaScheduler) : SchedInv (novaSchedInit memory) := by
  intro i hi
  simp at hi

theorem SchedInv.spawn {s : NovaScheduler} (h : SchedInv s) (i : Fin 32) (priority) :
    SchedInv (s.spawn i priority) := by
  intro j hj
  rw [NovaScheduler.thread_spawn] at hj ⊢
  split
  · rename_i hji
    subst hji
    exact toNat_ofNat_add_one j
  · rename_i hji
    exact h j (by simpa [hji] using hj)

theorem SchedInv.mark {s : NovaScheduler} (h : SchedInv s) {i : Fin 32} (hi : (s.thread i).state ≠ .dead) (state) :
    SchedInv (s.mark i state) := by
  intro j hj
  rw [NovaScheduler.thread_mark] at hj ⊢
  split
  · rename_i hji
    subst hji
    exact h j hi
  · rename_i hji
    exact h j (by simpa [hji] using hj)

theorem SchedInv.charge {s : NovaScheduler} (h : SchedInv s) {i : Fin 32} (hi : (s.thread i).state ≠ .dead) :
    SchedInv (s.charge i) := by
  intro j hj
  rw [NovaScheduler.thread_charge] at hj ⊢
  split
  · rename_i hji
    subst hji
    exact h j hi
  · rename_i hji
    exact h j (by simpa [hji] using hj)

theorem SchedInv.next {s : NovaScheduler} (h : SchedInv s) (op : SchedOp) : SchedInv (schedMachine.next s op) := by
  cases op with
  | add priority id =>
      rw [schedMachine_next_add]
      rcases novaSchedAdd_cases s priority id with ⟨_, hr⟩ | ⟨i, _, _, hr⟩ <;> rw [hr]
      · exact h
      · exact h.spawn i priority
  | setState id state =>
      rw [schedMachine_next_setState]
      rcases novaSchedSetState_cases s id state with ⟨_, hr⟩ | ⟨i, _, hi, hr⟩ <;> rw [hr]
      · exact h
      · exact h.mark hi state
  | account id =>
      rw [schedMachine_next_account]
      rcases novaSchedAccount_cases s id with ⟨_, hr⟩ | ⟨i, _, hi, hr⟩ <;> rw [hr]
      · exact h
      · exact h.charge hi

theorem SchedInv.exec (memory : NovaScheduler) (ops : List SchedOp) :
    SchedInv (schedMachine.exec (novaSchedInit memory) ops) :=
  Machine.exec_invariant (fun _ op h => h.next op) (.init memory) ops

/-! ## The map of live threads -/

@[simp] theorem entry_eq_none_iff {t : NovaThread} : t.entry = none ↔ t.state = .dead := by
  obtain ⟨_, _, _, state⟩ := t
  cases state <;> simp [NovaThread.entry, ThreadEntry.withState]

theorem entry_eq_some_iff {t : NovaThread} {e : ThreadEntry} :
    t.entry = some e ↔ t.priority = e.priority ∧ t.quanta = e.quanta ∧
      (t.state = .runnable ∧ e.state = .runnable ∨ t.state = .blocked ∧ e.state = .blocked) := by
  obtain ⟨_, _, _, state⟩ := t
  obtain ⟨_, _, _⟩ := e
  cases state <;> simp [NovaThread.entry, ThreadEntry.withState, and_comm, and_left_comm, eq_comm]

namespace NovaScheduler

variable {s : NovaScheduler} {i : Fin 32}

theorem entry_slot (s : NovaScheduler) (i : Fin 32) : s.threadMap.entry (i + 1) = (s.thread i).entry := by
  have hi := i.isLt
  simp [threadMap, Nat.succ_le_iff.mpr hi]

theorem entry_of_slotOf {id : UInt32} (h : slotOf id = some i) :
    s.threadMap.entry id.toNat = (s.thread i).entry := by
  rw [slotOf_eq_some_iff.mp h, entry_slot]

theorem exists_slot {id : Nat} (h : id ∈ Finset.Icc 1 32) : ∃ i : Fin 32, id = i + 1 := by
  rw [Finset.mem_Icc] at h
  exact ⟨⟨id - 1, by omega⟩, by simp; omega⟩

theorem slot_mem (i : Fin 32) : (i : Nat) + 1 ∈ Finset.Icc 1 32 := by
  rw [Finset.mem_Icc]
  omega

theorem threadMap_eq_assign (s : NovaScheduler) (i : Fin 32) {s' : NovaScheduler}
    (h : ∀ j, j ≠ i → s'.thread j = s.thread j) :
    s'.threadMap = s.threadMap.assign (i + 1) (s'.thread i).entry := by
  refine SlotMap.ext (funext fun id => ?_)
  rw [SlotMap.entry_assign (slot_mem i)]
  by_cases hid : id ∈ Finset.Icc 1 32
  · obtain ⟨j, rfl⟩ := exists_slot hid
    rw [entry_slot]
    rcases eq_or_ne j i with rfl | hne
    · rw [Function.update_self]
    · have hne' : (j : Nat) + 1 ≠ i + 1 := fun he => hne (Fin.ext (Nat.succ.inj he))
      rw [Function.update_of_ne hne', entry_slot, h j hne]
  · have hne : id ≠ i + 1 := fun he => hid (he ▸ slot_mem i)
    have hnone : ∀ m : ThreadMap, m.entry id = none := fun m => by
      by_contra hsome
      exact hid (m.mem_keys id hsome)
    rw [Function.update_of_ne hne, hnone, hnone]

theorem threadMap_spawn (priority) :
    (s.spawn i priority).threadMap = s.threadMap.assign (i + 1) (some ⟨priority, 0, .runnable⟩) := by
  rw [threadMap_eq_assign s i (fun j hj => by simp [hj])]
  simp [NovaThread.entry, ThreadEntry.withState]

theorem threadMap_mark {e : ThreadEntry} (he : (s.thread i).entry = some e) (state) :
    (s.mark i state).threadMap = s.threadMap.assign (i + 1) (e.withState state) := by
  obtain ⟨hp, hq, _⟩ := entry_eq_some_iff.mp he
  rw [threadMap_eq_assign s i (fun j hj => by simp [hj])]
  cases state <;> simp [NovaThread.entry, ThreadEntry.withState, hp, hq]

theorem threadMap_charge {e : ThreadEntry} (he : (s.thread i).entry = some e) :
    (s.charge i).threadMap = s.threadMap.assign (i + 1) (some { e with quanta := e.quanta + 1 }) := by
  rw [threadMap_eq_assign s i (fun j hj => by simp [hj])]
  refine congrArg _ (entry_eq_some_iff.mpr ?_)
  obtain ⟨hp, hq, hstate⟩ := entry_eq_some_iff.mp he
  simp [hp, hq, hstate]

theorem entry_eq_none_of {id : UInt32} (h : ∀ i, slotOf id = some i → (s.thread i).state = .dead) :
    s.threadMap.entry id.toNat = none := by
  cases hslot : slotOf id with
  | none =>
      by_contra hsome
      exact slotOf_eq_none_iff.mp hslot (s.threadMap.mem_keys _ hsome)
  | some i => rw [entry_of_slotOf hslot, entry_eq_none_iff]; exact h i hslot

theorem exists_entry_of {id : UInt32} (hslot : slotOf id = some i) (h : (s.thread i).state ≠ .dead) :
    ∃ e, (s.thread i).entry = some e ∧ s.threadMap.entry id.toNat = some e := by
  obtain ⟨e, he⟩ := Option.ne_none_iff_exists'.mp (mt entry_eq_none_iff.mp h)
  exact ⟨e, he, (entry_of_slotOf hslot).trans he⟩

theorem firstFree_eq_none (h : ∀ i, (s.thread i).state ≠ .dead) : s.threadMap.firstFree = none := by
  refine SlotMap.firstFree_eq_none_iff.mpr fun id hid => ?_
  obtain ⟨i, rfl⟩ := exists_slot hid
  rw [entry_slot]
  exact mt entry_eq_none_iff.mp (h i)

theorem firstFree_eq_some (hi : (s.thread i).state = .dead) (h : ∀ j < i, (s.thread j).state ≠ .dead) :
    s.threadMap.firstFree = some ((i : Nat) + 1) := by
  refine SlotMap.firstFree_eq_some_iff.mpr ⟨slot_mem i, ?_, fun id hid hfree => ?_⟩
  · rw [entry_slot]; exact entry_eq_none_iff.mpr hi
  · obtain ⟨j, rfl⟩ := exists_slot hid
    rw [entry_slot, entry_eq_none_iff] at hfree
    have hji : i ≤ j := not_lt.mp fun hlt => h j hlt hfree
    exact Nat.succ_le_succ hji

theorem threadMap_init (memory : NovaScheduler) : (novaSchedInit memory).threadMap = SlotMap.empty := by
  refine SlotMap.ext (funext fun id => ?_)
  by_contra hsome
  obtain ⟨i, rfl⟩ := exists_slot ((novaSchedInit memory).threadMap.mem_keys id hsome)
  rw [entry_slot, thread_init] at hsome
  exact hsome (entry_eq_none_iff.mpr rfl)

end NovaScheduler

/-! ## The simulation by the map -/

structure SchedIs (s : NovaScheduler) (m : ThreadMap) : Prop where
  inv : SchedInv s
  threadMap : s.threadMap = m

theorem SchedIs.init (memory : NovaScheduler) : SchedIs (novaSchedInit memory) SlotMap.empty :=
  ⟨.init memory, NovaScheduler.threadMap_init memory⟩

open NovaScheduler in
/-- A call on the scheduler is the same call on its map. -/
theorem step_threadMap (s : NovaScheduler) (op : SchedOp) :
    mapMachine.step s.threadMap op = (schedMachine.out s op, (schedMachine.next s op).threadMap) := by
  cases op with
  | add priority id =>
      rw [schedMachine_out_add, schedMachine_next_add]
      rcases novaSchedAdd_cases s priority id with ⟨hlive, hr⟩ | ⟨i, hi, hlt, hr⟩ <;> rw [hr]
      · simp only [mapMachine, firstFree_eq_none hlive]
      · have hid : UInt32.ofNat ((i : Nat) + 1) = UInt32.ofNat i + 1 := by simp
        simp only [mapMachine, firstFree_eq_some hi hlt, threadMap_spawn, hid]
  | setState id state =>
      rw [schedMachine_out_setState, schedMachine_next_setState]
      rcases novaSchedSetState_cases s id state with ⟨hdead, hr⟩ | ⟨i, hslot, hi, hr⟩ <;> rw [hr]
      · simp only [mapMachine, entry_eq_none_of hdead]
      · obtain ⟨e, he, hentry⟩ := exists_entry_of hslot hi
        rw [slotOf_eq_some_iff.mp hslot] at hentry
        simp only [mapMachine, slotOf_eq_some_iff.mp hslot, hentry, threadMap_mark he]
  | account id =>
      rw [schedMachine_next_account]
      rcases novaSchedAccount_cases s id with ⟨hdead, hr⟩ | ⟨i, hslot, hi, hr⟩ <;> rw [hr]
      · simp only [mapMachine, entry_eq_none_of hdead]; rfl
      · obtain ⟨e, he, hentry⟩ := exists_entry_of hslot hi
        rw [slotOf_eq_some_iff.mp hslot] at hentry
        simp only [mapMachine, slotOf_eq_some_iff.mp hslot, hentry, threadMap_charge he]; rfl

theorem sched_simulation : Machine.Simulation schedMachine mapMachine SchedIs (fun _ o o' => o = o') where
  out := by
    rintro s m op ⟨_, rfl⟩
    rw [Machine.out, Machine.out, step_threadMap]; rfl
  next := by
    rintro s m op ⟨hinv, rfl⟩
    exact ⟨hinv.next op, by rw [Machine.next, Machine.next, step_threadMap]; rfl⟩

theorem SchedIs.exec (memory : NovaScheduler) (ops : List SchedOp) :
    SchedIs (schedMachine.exec (novaSchedInit memory) ops) (mapMachine.exec SlotMap.empty ops) :=
  sched_simulation.exec (.init memory) ops

end NovaOs.Core
