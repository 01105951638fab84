import NovaOs.Core.Lemmas.PickNext

/-!
# What the scheduler guarantees

The table of threads is a finite map from ids to live threads, and threads of one priority share the schedule
steps fairly. The counter `count` follows the live threads only as long as none of them dies.
-/

namespace NovaOs.Core

open Lib

/-! ## The finite map of threads -/

/-- How an add answers when the scheduler stands for the map `m`, and what becomes of the map. -/
structure AddMeets (s : NovaScheduler) (m : ThreadMap) (priority : UInt8) (id : UInt32) : Prop where
  full_iff : (novaSchedAdd s priority id).1 = .full ↔ m.dom.card = 32
  full : (novaSchedAdd s priority id).1 = .full →
    (novaSchedAdd s priority id).2 = (s, id) ∧ mapMachine.next m (.add priority id) = m
  ok : (novaSchedAdd s priority id).1 ≠ .full →
    ∃ new ∈ Finset.Icc 1 32, new ∉ m.dom ∧ (∀ j ∈ Finset.Icc 1 32, j ∉ m.dom → new ≤ j) ∧
      (novaSchedAdd s priority id).1 = .ok ∧ (novaSchedAdd s priority id).2.2.toNat = new ∧
      (mapMachine.next m (.add priority id)).entry =
        Function.update m.entry new (some ⟨priority, 0, .runnable⟩)

/-- How a change of state answers when the scheduler stands for the map `m`. -/
structure SetStateMeets (s : NovaScheduler) (m : ThreadMap) (id : UInt32) (state : NovaThreadState) : Prop where
  notFound_iff : (novaSchedSetState s id state).1 = .notFound ↔ id.toNat ∉ m.dom
  notFound : id.toNat ∉ m.dom →
    (novaSchedSetState s id state).2 = s ∧ mapMachine.next m (.setState id state) = m
  ok : ∀ e, m.entry id.toNat = some e → (novaSchedSetState s id state).1 = .ok ∧
    (mapMachine.next m (.setState id state)).entry = Function.update m.entry id.toNat (e.withState state) ∧
    (novaSchedSetState s id state).2.tick = s.tick

/-- What accounting does when the scheduler stands for the map `m`. -/
structure AccountMeets (s : NovaScheduler) (m : ThreadMap) (id : UInt32) : Prop where
  absent : id.toNat ∉ m.dom → novaSchedAccount s id = s ∧ mapMachine.next m (.account id) = m
  present : ∀ e, m.entry id.toNat = some e →
    (mapMachine.next m (.account id)).entry =
      Function.update m.entry id.toNat (some { e with quanta := e.quanta + 1 }) ∧
    (novaSchedAccount s id).tick = s.tick + 1

theorem mapMachine_next_setState {m : ThreadMap} {id : UInt32} {e : ThreadEntry} (h : m.entry id.toNat = some e)
    (state) : (mapMachine.next m (.setState id state)).entry =
      Function.update m.entry id.toNat (e.withState state) := by
  have hmem : id.toNat ∈ Finset.Icc 1 32 := m.mem_keys _ (by simp [h])
  simp only [Machine.next, mapMachine, h, SlotMap.entry_assign hmem]

theorem mapMachine_next_account {m : ThreadMap} {id : UInt32} {e : ThreadEntry} (h : m.entry id.toNat = some e) :
    (mapMachine.next m (.account id)).entry =
      Function.update m.entry id.toNat (some { e with quanta := e.quanta + 1 }) := by
  have hmem : id.toNat ∈ Finset.Icc 1 32 := m.mem_keys _ (by simp [h])
  simp only [Machine.next, mapMachine, h, SlotMap.entry_assign hmem]

open NovaScheduler in
theorem addMeets (s : NovaScheduler) (priority id) : AddMeets s s.threadMap priority id := by
  rcases novaSchedAdd_cases s priority id with ⟨hlive, hr⟩ | ⟨i, hi, hlt, hr⟩
  · have hfree := firstFree_eq_none hlive
    have hcard : s.threadMap.dom.card = 32 := SlotMap.card_dom_eq_iff.mpr (SlotMap.firstFree_eq_none_iff.mp hfree)
    refine ⟨by simp [hr, hcard], fun _ => ⟨by rw [hr], by simp only [Machine.next, mapMachine, hfree]⟩, ?_⟩
    simp [hr]
  · have hfree := firstFree_eq_some hi hlt
    obtain ⟨hmem, hnone, hleast⟩ := SlotMap.firstFree_eq_some_iff.mp hfree
    have hcard : s.threadMap.dom.card ≠ 32 := fun h => SlotMap.card_dom_eq_iff.mp h _ hmem hnone
    refine ⟨by simp [hr, hcard], by simp [hr], fun _ => ⟨i + 1, hmem, SlotMap.not_mem_dom.mpr hnone, ?_⟩⟩
    refine ⟨fun j hj hfree => hleast j hj (SlotMap.not_mem_dom.mp hfree), by rw [hr], ?_, ?_⟩
    · rw [hr]; exact toNat_ofNat_add_one i
    · simp only [Machine.next, mapMachine, hfree, SlotMap.entry_assign hmem]

open NovaScheduler in
theorem setStateMeets (s : NovaScheduler) (id state) : SetStateMeets s s.threadMap id state := by
  rcases novaSchedSetState_cases s id state with ⟨hdead, hr⟩ | ⟨i, hslot, hi, hr⟩
  · have hnone := entry_eq_none_of hdead
    refine ⟨by simp [hr, SlotMap.not_mem_dom, hnone], fun _ => ⟨by rw [hr], ?_⟩, by simp [hnone]⟩
    simp only [Machine.next, mapMachine, hnone]
  · obtain ⟨e, _, hentry⟩ := exists_entry_of hslot hi
    refine ⟨by simp [hr, SlotMap.not_mem_dom, hentry], by simp [SlotMap.not_mem_dom, hentry], ?_⟩
    intro e' he'
    exact ⟨by rw [hr], mapMachine_next_setState he' state, by rw [hr]; rfl⟩

open NovaScheduler in
theorem accountMeets (s : NovaScheduler) (id) : AccountMeets s s.threadMap id := by
  rcases novaSchedAccount_cases s id with ⟨hdead, hr⟩ | ⟨i, hslot, hi, hr⟩
  · have hnone := entry_eq_none_of hdead
    refine ⟨fun _ => ⟨hr, ?_⟩, by simp [hnone]⟩
    simp only [Machine.next, mapMachine, hnone]
  · obtain ⟨e, _, hentry⟩ := exists_entry_of hslot hi
    refine ⟨by simp [SlotMap.not_mem_dom, hentry], fun e' he' => ⟨mapMachine_next_account he', by rw [hr]; rfl⟩⟩

/-- After any calls on an initialised scheduler, it stands for the map that the same calls make of the empty
map; every further call answers for this map; and no two live threads store one id. -/
theorem sched_refines_map (memory : NovaScheduler) (ops : List SchedOp) :
    let s := schedMachine.exec (novaSchedInit memory) ops
    let m := mapMachine.exec SlotMap.empty ops
    s.threadMap = m ∧
    (∀ priority id, AddMeets s m priority id) ∧
    (∀ id state, SetStateMeets s m id state) ∧
    (∀ id, AccountMeets s m id) ∧
    (∀ i j, (s.thread i).state ≠ .dead → (s.thread j).state ≠ .dead → (s.thread i).id = (s.thread j).id → i = j) := by
  intro s m
  obtain ⟨hinv, hmap⟩ : SchedIs s m := .exec memory ops
  rw [← hmap]
  refine ⟨rfl, addMeets s, setStateMeets s, accountMeets s, fun i j hi hj hid => ?_⟩
  have hij := hinv i hi
  rw [hid, hinv j hj] at hij
  exact Fin.ext (Nat.succ.inj hij).symm

/-! ## The counter of threads -/

def NovaScheduler.live (s : NovaScheduler) : Finset (Fin 32) :=
  Finset.univ.filter fun i => (s.thread i).state ≠ .dead

/-- The counter counts the live threads, and an add fails exactly when it says 32. -/
structure CountMeets (s : NovaScheduler) : Prop where
  count_eq : s.count.toNat = s.live.card
  count_le : s.count.toNat ≤ 32
  full_iff : ∀ priority id, (novaSchedAdd s priority id).1 = .full ↔ s.count = 32

/-- The call ends a live thread. -/
def Kills (s : NovaScheduler) : SchedOp → Prop
  | .setState id .dead => ∃ i, slotOf id = some i ∧ (s.thread i).state ≠ .dead
  | _ => False

theorem mem_live {s : NovaScheduler} {i : Fin 32} : i ∈ s.live ↔ (s.thread i).state ≠ .dead := by
  simp [NovaScheduler.live]

theorem card_live_le (s : NovaScheduler) : s.live.card ≤ 32 := by
  simpa using s.live.card_le_univ

theorem live_spawn (s : NovaScheduler) (i : Fin 32) (priority) : (s.spawn i priority).live = insert i s.live := by
  ext j
  rw [Finset.mem_insert, mem_live, mem_live, NovaScheduler.thread_spawn]
  rcases eq_or_ne j i with rfl | hne
  · simp
  · simp [hne]

theorem live_mark_dead (s : NovaScheduler) (i : Fin 32) : (s.mark i .dead).live = s.live.erase i := by
  ext j
  rw [Finset.mem_erase, mem_live, mem_live, NovaScheduler.thread_mark]
  rcases eq_or_ne j i with rfl | hne
  · simp
  · simp [hne]

theorem live_mark_of_ne {s : NovaScheduler} {i : Fin 32} (hi : (s.thread i).state ≠ .dead) {state}
    (hstate : state ≠ .dead) : (s.mark i state).live = s.live := by
  ext j
  rw [mem_live, mem_live, NovaScheduler.thread_mark]
  rcases eq_or_ne j i with rfl | hne
  · simp [hstate, hi]
  · simp [hne]

theorem live_charge (s : NovaScheduler) (i : Fin 32) : (s.charge i).live = s.live := by
  ext j
  rw [mem_live, mem_live, NovaScheduler.thread_charge]
  rcases eq_or_ne j i with rfl | hne
  · simp
  · simp [hne]

theorem live_init (memory : NovaScheduler) : (novaSchedInit memory).live = ∅ := by
  simp [NovaScheduler.live]

theorem full_iff_card_live (s : NovaScheduler) (priority id) :
    (novaSchedAdd s priority id).1 = .full ↔ s.live.card = 32 := by
  have hall : s.live.card = 32 ↔ ∀ i, (s.thread i).state ≠ .dead := by
    have hcard := Finset.card_eq_iff_eq_univ s.live
    rw [Fintype.card_fin] at hcard
    simp only [hcard, Finset.eq_univ_iff_forall, mem_live]
  rw [hall]
  rcases novaSchedAdd_cases s priority id with ⟨hlive, hr⟩ | ⟨i, hi, _, hr⟩
  · simp [hr, hlive]
  · simp only [hr, reduceCtorEq, false_iff, not_forall, not_not]
    exact ⟨i, hi⟩

theorem CountMeets.of_count_eq {s : NovaScheduler} (h : s.count.toNat = s.live.card) : CountMeets s := by
  refine ⟨h, h ▸ card_live_le s, fun priority id => ?_⟩
  rw [full_iff_card_live, ← h]
  exact ⟨fun h32 => UInt64.toNat.inj h32, fun h32 => by rw [h32]; rfl⟩

theorem count_next {s : NovaScheduler} (h : s.count.toNat = s.live.card) {op : SchedOp} (hop : ¬ Kills s op) :
    (schedMachine.next s op).count.toNat = (schedMachine.next s op).live.card := by
  cases op with
  | add priority id =>
      rw [schedMachine_next_add]
      rcases novaSchedAdd_cases s priority id with ⟨_, hr⟩ | ⟨i, hi, _, hr⟩ <;> rw [hr]
      · exact h
      · have hlive : i ∉ s.live := by simp [mem_live, hi]
        have hle := card_live_le s
        rw [live_spawn, Finset.card_insert_of_notMem hlive, ← h]
        show (s.count + 1).toNat = _
        rw [UInt64.toNat_add, UInt64.toNat_one]
        omega
  | setState id state =>
      rw [schedMachine_next_setState]
      rcases novaSchedSetState_cases s id state with ⟨_, hr⟩ | ⟨i, hslot, hi, hr⟩ <;> rw [hr]
      · exact h
      · have hstate : state ≠ .dead := by
          rintro rfl
          exact hop ⟨i, hslot, hi⟩
        rw [live_mark_of_ne hi hstate]
        exact h
  | account id =>
      rw [schedMachine_next_account]
      rcases novaSchedAccount_cases s id with ⟨_, hr⟩ | ⟨i, _, _, hr⟩ <;> rw [hr]
      · exact h
      · rw [live_charge]
        exact h

theorem count_next_of_kills {s : NovaScheduler} (h : s.count.toNat = s.live.card) {op : SchedOp} (hop : Kills s op) :
    (schedMachine.next s op).count.toNat ≠ (schedMachine.next s op).live.card := by
  match op, hop with
  | .setState id .dead, ⟨i, hslot, hi⟩ =>
      rw [schedMachine_next_setState]
      rcases novaSchedSetState_cases s id .dead with ⟨hdead, _⟩ | ⟨j, hj, _, hr⟩
      · exact absurd (hdead i hslot) hi
      · obtain rfl : i = j := Option.some.inj (hslot.symm.trans hj)
        have hmem : i ∈ s.live := mem_live.mpr hi
        have hpos := Finset.card_pos.mpr ⟨i, hmem⟩
        rw [hr, live_mark_dead, Finset.card_erase_of_mem hmem]
        show s.count.toNat ≠ _
        omega

/-- In a run from an initialised scheduler the counter is right in every state exactly when no call of the run
ends a live thread. -/
theorem sched_count_iff_no_kill (memory : NovaScheduler) (ops : List SchedOp) :
    schedMachine.Always CountMeets (novaSchedInit memory) ops ↔
      schedMachine.Along (fun s op => ¬ Kills s op) (novaSchedInit memory) ops := by
  have hinit : (novaSchedInit memory).count.toNat = (novaSchedInit memory).live.card := by
    rw [live_init]
    rfl
  have hbreak : ∀ s op, s.count.toNat = s.live.card → ¬ ¬ Kills s op → ¬ CountMeets (schedMachine.next s op) :=
    fun s op h hop hmeets => count_next_of_kills h (not_not.mp hop) hmeets.count_eq
  exact Machine.always_iff_along (fun s => .of_count_eq) (fun s op h hop => count_next h hop) hbreak hinit

def zeroedScheduler : NovaScheduler where
  threads := Vector.replicate 32 ⟨0, 0, 0, .dead⟩
  count := 0
  tick := 0

/-- One thread was added and has died, and the counter still says one. -/
theorem sched_count_after_death :
    ¬ CountMeets (schedMachine.exec (novaSchedInit zeroedScheduler) [.add 10 0, .setState 1 .dead]) := by
  intro h
  exact absurd h.count_eq (by decide +kernel)

/-! ## Fair shares of one priority -/

def NovaScheduler.gap (s : NovaScheduler) (a b : Fin 32) : Nat :=
  ((s.thread a).quanta.toNat - (s.thread b).quanta.toNat : Int).natAbs

/-- A schedule step, an add, or a change of state of another thread than `a` and `b`. -/
def SchedStep.Spares (a b : Fin 32) : SchedStep → Prop
  | .schedule => True
  | .call (.add _ _) => True
  | .call (.setState id _) => slotOf id ≠ some a ∧ slotOf id ≠ some b
  | .call (.account _) => False

/-- Two runnable threads of one priority, with quanta at most `bound` apart. -/
structure Level (a b : Fin 32) (bound : Nat) (s : NovaScheduler) : Prop where
  inv : SchedInv s
  left : (s.thread a).state = .runnable
  right : (s.thread b).state = .runnable
  priority : (s.thread a).priority = (s.thread b).priority
  gap : s.gap a b ≤ bound

theorem Level.frame {a b bound s s'} (h : Level a b bound s) (hinv : SchedInv s')
    (ha : s'.thread a = s.thread a) (hb : s'.thread b = s.thread b) : Level a b bound s' where
  inv := hinv
  left := by rw [ha]; exact h.left
  right := by rw [hb]; exact h.right
  priority := by rw [ha, hb]; exact h.priority
  gap := by rw [NovaScheduler.gap, ha, hb]; exact h.gap

/-- The one of two threads of a priority that is charged was not ahead. -/
theorem Level.charge {a b bound s} (h : Level a b bound s) (hab : a ≠ b) (hbound : 1 ≤ bound)
    (ha : (s.thread a).quanta.toNat < 2 ^ 64 - 1) (hb : (s.thread b).quanta.toNat < 2 ^ 64 - 1) {i : Fin 32}
    (hi : s.selected = some i) : Level a b bound (s.charge i) := by
  have hlive : (s.thread i).state ≠ .dead := by rw [s.runnable_of_selected hi]; decide
  have hinv := h.inv.charge hlive
  have hgap := h.gap
  rw [NovaScheduler.gap] at hgap
  rcases eq_or_ne i a with rfl | hia
  · have hle := key_le_of_priority_eq (s.key_selected_le hi h.right) h.priority
    refine ⟨hinv, by simp [h.left], by simp [hab.symm, h.right], by simp [hab.symm, h.priority], ?_⟩
    simp only [NovaScheduler.gap, NovaScheduler.thread_charge, ↓reduceIte, hab.symm, toNat_add_one ha]
    omega
  · rcases eq_or_ne i b with rfl | hib
    · have hle := key_le_of_priority_eq (s.key_selected_le hi h.left) h.priority.symm
      refine ⟨hinv, by simp [hab, h.left], by simp [h.right], by simp [hab, h.priority], ?_⟩
      simp only [NovaScheduler.gap, NovaScheduler.thread_charge, ↓reduceIte, hab, toNat_add_one hb]
      omega
    · exact h.frame hinv (by simp [hia.symm]) (by simp [hib.symm])

theorem Level.next {a b bound s} (h : Level a b bound s) (hab : a ≠ b) (hbound : 1 ≤ bound)
    (ha : (s.thread a).quanta.toNat < 2 ^ 64 - 1) (hb : (s.thread b).quanta.toNat < 2 ^ 64 - 1)
    {step : SchedStep} (hstep : step.Spares a b) : Level a b bound (stepMachine.next s step) := by
  match step, hstep with
  | .schedule, _ =>
      show Level a b bound (novaSchedule s)
      rcases novaSchedule_cases h.inv with ⟨hnone, _⟩ | ⟨i, hi, hr⟩
      · exact absurd h.left (hnone a)
      · rw [hr]; exact h.charge hab hbound ha hb hi
  | .call (.add priority id), _ =>
      show Level a b bound (novaSchedAdd s priority id).2.1
      rcases novaSchedAdd_cases s priority id with ⟨_, hr⟩ | ⟨i, hi, _, hr⟩ <;> rw [hr]
      · exact h
      · have hia : a ≠ i := by rintro rfl; simp [h.left] at hi
        have hib : b ≠ i := by rintro rfl; simp [h.right] at hi
        exact h.frame (h.inv.spawn i priority) (by simp [hia]) (by simp [hib])
  | .call (.setState id state), hspare =>
      show Level a b bound (novaSchedSetState s id state).2
      rcases novaSchedSetState_cases s id state with ⟨_, hr⟩ | ⟨i, hslot, hi, hr⟩ <;> rw [hr]
      · exact h
      · have hia : a ≠ i := by rintro rfl; exact hspare.1 hslot
        have hib : b ≠ i := by rintro rfl; exact hspare.2 hslot
        exact h.frame (h.inv.mark hi state) (by simp [hia]) (by simp [hib])

/-- Two runnable threads of one priority stay within one quantum of each other, or within the distance they
started with, whatever else is scheduled, added, blocked or ended meanwhile. -/
theorem sched_fair {s : NovaScheduler} (hs : SchedReachable s) {a b : Fin 32} (hab : a ≠ b)
    (ha : (s.thread a).state = .runnable) (hb : (s.thread b).state = .runnable)
    (hpriority : (s.thread a).priority = (s.thread b).priority) {steps : List SchedStep}
    (hsteps : ∀ step ∈ steps, step.Spares a b)
    (hmax : stepMachine.Always
      (fun t => (t.thread a).quanta.toNat < 2 ^ 64 - 1 ∧ (t.thread b).quanta.toNat < 2 ^ 64 - 1) s steps) :
    stepMachine.Always (fun t => t.gap a b ≤ max (s.gap a b) 1) s steps := by
  obtain ⟨memory, ops, rfl⟩ := hs
  have hlevel : Level a b (max _ 1) (schedMachine.exec (novaSchedInit memory) ops) :=
    ⟨.exec memory ops, ha, hb, hpriority, le_max_left _ 1⟩
  have hrun := (Machine.along_of_forall hsteps).and hmax.along
  refine (Machine.always_of_along ?_ hlevel hrun).mono fun t ht => ht.gap
  exact fun t step ht hstep => ht.next hab (le_max_right _ 1) hstep.2.1 hstep.2.2 hstep.1

theorem sched_fair_two_level :
    stepMachine.Always (fun t => t.gap 0 1 ≤ 1) (schedMachine.exec (novaSchedInit zeroedScheduler) [.add 10 0, .add 10 0])
      [.schedule, .call (.add 20 0), .schedule, .call (.setState 3 .blocked), .schedule, .schedule] := by
  have hgap : (schedMachine.exec (novaSchedInit zeroedScheduler) [.add 10 0, .add 10 0]).gap 0 1 = 0 := by
    decide +kernel
  have hsteps : ∀ step ∈ [SchedStep.schedule, .call (.add 20 0), .schedule, .call (.setState 3 .blocked), .schedule,
      .schedule], step.Spares 0 1 := by
    simp only [List.forall_mem_cons, SchedStep.Spares, List.not_mem_nil, false_implies, implies_true, and_true, true_and]
    decide
  have h := sched_fair ⟨zeroedScheduler, [.add 10 0, .add 10 0], rfl⟩ (by decide) (by decide +kernel) (by decide +kernel)
    (by decide +kernel) hsteps (by simp only [Machine.Always]; decide +kernel)
  rwa [hgap] at h

end NovaOs.Core
