import NovaOs.Core.Theorems.Scheduler
import Mathlib.Algebra.Order.BigOperators.Group.Finset

/-!
# The counters of the scheduler and the history of its calls

Which ids name a live thread, and how often each was charged, is read off the calls and their answers alone. The
counters of the state agree with it.
-/

namespace NovaOs.Core

open Lib

abbrev SchedCall := SchedOp × (Option NovaResult × Option UInt32)

/-! ## What the history says -/

/-- The call created the thread `id`. -/
def Creates (id : UInt32) : SchedCall → Prop
  | (.add _ _, (some .ok, some new)) => new = id
  | _ => False

/-- The call set the thread `id` dead. -/
def Ends (id : UInt32) : SchedCall → Prop
  | (.setState id' .dead, (some .ok, _)) => id' = id
  | _ => False

/-- The call is an account of `id`. -/
def Charges (id : UInt32) : SchedCall → Prop
  | (.account id', _) => id' = id
  | _ => False

instance (id : UInt32) : DecidablePred (Creates id) := fun c => by
  unfold Creates
  split <;> infer_instance

instance (id : UInt32) : DecidablePred (Ends id) := fun c => by
  unfold Ends
  split <;> infer_instance

instance (id : UInt32) : DecidablePred (Charges id) := fun c => by
  unfold Charges
  split <;> infer_instance

/-- The id names a live thread: the last call that created or ended a thread of this id created one. -/
def namesLive (history : List SchedCall) (id : UInt32) : Bool :=
  (history.reverse.find? fun c => Creates id c ∨ Ends id c).any fun c => Creates id c

/-- How often `id` was accounted since the last call that created it. -/
def chargesSince (history : List SchedCall) (id : UInt32) : Nat :=
  (history.reverse.takeWhile fun c => ¬ Creates id c).countP fun c => Charges id c

/-- The call is an account of a thread that is live after `before`. -/
def chargesLive (before : List SchedCall) : SchedCall → Bool
  | (.account id, _) => namesLive before id
  | _ => false

/-- The number of the accounts of a live thread among calls that follow `before`. -/
def accountedFrom (before : List SchedCall) : List SchedCall → Nat
  | [] => 0
  | c :: rest => (if chargesLive before c then 1 else 0) + accountedFrom (before ++ [c]) rest

def accounted (history : List SchedCall) : Nat := accountedFrom [] history

/-- A thread was set dead that had been accounted. -/
def ChargedDied (history : List SchedCall) : Prop :=
  ∃ before c after id, history = before ++ c :: after ∧ Ends id c ∧ 0 < chargesSince before id

section

variable (history : List SchedCall) (c : SchedCall) (id : UInt32)

theorem namesLive_append : namesLive (history ++ [c]) id =
    if Creates id c then true else if Ends id c then false else namesLive history id := by
  rw [namesLive, List.reverse_append, List.reverse_singleton, List.singleton_append, List.find?_cons]
  by_cases hcreates : Creates id c
  · simp [hcreates]
  · by_cases hends : Ends id c <;> simp [hcreates, hends, namesLive]

theorem chargesSince_append : chargesSince (history ++ [c]) id =
    if Creates id c then 0 else chargesSince history id + if Charges id c then 1 else 0 := by
  rw [chargesSince, List.reverse_append, List.reverse_singleton, List.singleton_append, List.takeWhile_cons]
  by_cases hcreates : Creates id c
  · simp [hcreates]
  · simp [hcreates, List.countP_cons, chargesSince]

theorem accountedFrom_append (before : List SchedCall) : accountedFrom before (history ++ [c]) =
    accountedFrom before history + if chargesLive (before ++ history) c then 1 else 0 := by
  induction history generalizing before with
  | nil => simp [accountedFrom]
  | cons d rest ih =>
      simp only [List.cons_append, accountedFrom, ih, List.append_assoc, List.nil_append]
      omega

theorem accounted_append : accounted (history ++ [c]) = accounted history + if chargesLive history c then 1 else 0 :=
  accountedFrom_append history c []

theorem chargedDied_append : ChargedDied (history ++ [c]) ↔
    ChargedDied history ∨ ∃ id, Ends id c ∧ 0 < chargesSince history id := by
  constructor
  · rintro ⟨before, d, after, id, he, hends, hcharged⟩
    cases after using List.reverseRecOn with
    | nil =>
        obtain ⟨rfl, hd⟩ := List.append_inj' he rfl
        cases hd
        exact .inr ⟨id, hends, hcharged⟩
    | append_singleton after d' =>
        rw [← List.cons_append, ← List.append_assoc] at he
        obtain ⟨rfl, _⟩ := List.append_inj' he rfl
        exact .inl ⟨before, d, after, id, rfl, hends, hcharged⟩
  · rintro (⟨before, d, after, id, rfl, hends, hcharged⟩ | ⟨id, hends, hcharged⟩)
    · exact ⟨before, d, after ++ [c], id, by simp, hends, hcharged⟩
    · exact ⟨history, c, [], id, rfl, hends, hcharged⟩

end

theorem chargesLive_iff {before : List SchedCall} {c : SchedCall} :
    chargesLive before c = true ↔ ∃ id, Charges id c ∧ namesLive before id = true := by
  obtain ⟨op, answer⟩ := c
  cases op with
  | account id => simp [chargesLive, Charges]
  | add => simp [chargesLive, Charges]
  | setState => simp [chargesLive, Charges]

/-! ## What one call does -/

theorem slotOf_eq_some_iff_eq {id : UInt32} {i : Fin 32} : slotOf id = some i ↔ UInt32.ofNat i + 1 = id := by
  rw [slotOf_eq_some_iff, ← toNat_ofNat_add_one, UInt32.toNat_inj, eq_comm]

/-- What a call does to the counters, and what it is in the history. -/
inductive CallEffect (s : NovaScheduler) (c : SchedCall) (s' : NovaScheduler) : Prop where
  | create (i priority) (hdead : (s.thread i).state = .dead) (hnext : s' = s.spawn i priority)
      (hcreates : ∀ id, Creates id c ↔ slotOf id = some i) (hends : ∀ id, ¬ Ends id c) (hcharges : ∀ id, ¬ Charges id c)
  | kill (i) (hlive : (s.thread i).state ≠ .dead) (hnext : s' = s.mark i .dead)
      (hcreates : ∀ id, ¬ Creates id c) (hends : ∀ id, Ends id c ↔ slotOf id = some i) (hcharges : ∀ id, ¬ Charges id c)
  | charge (i) (hlive : (s.thread i).state ≠ .dead) (hnext : s' = s.charge i)
      (hcreates : ∀ id, ¬ Creates id c) (hends : ∀ id, ¬ Ends id c) (hcharges : ∀ id, Charges id c ↔ slotOf id = some i)
  | keep (hlive : ∀ j, (s'.thread j).state ≠ .dead ↔ (s.thread j).state ≠ .dead)
      (hquanta : ∀ j, (s'.thread j).quanta = (s.thread j).quanta) (htick : s'.tick = s.tick)
      (hcreates : ∀ id, ¬ Creates id c) (hends : ∀ id, ¬ Ends id c)
      (hcharges : ∀ id, Charges id c → ∀ i, slotOf id = some i → (s.thread i).state = .dead)

theorem callEffect (s : NovaScheduler) (op : SchedOp) :
    CallEffect s (op, schedMachine.out s op) (schedMachine.next s op) := by
  cases op with
  | add priority id =>
      rw [schedMachine_next_add, schedMachine_out_add]
      rcases novaSchedAdd_cases s priority id with ⟨_, hr⟩ | ⟨i, hi, _, hr⟩ <;> rw [hr]
      · apply CallEffect.keep <;> simp [Creates, Ends, Charges]
      · refine .create i priority hi rfl ?_ ?_ ?_ <;> simp [Creates, Ends, Charges, slotOf_eq_some_iff_eq]
  | setState id state =>
      rw [schedMachine_next_setState, schedMachine_out_setState]
      rcases novaSchedSetState_cases s id state with ⟨_, hr⟩ | ⟨i, hslot, hi, hr⟩ <;> rw [hr]
      · apply CallEffect.keep <;> simp [Creates, Ends, Charges]
      · cases state with
        | dead =>
            rw [slotOf_eq_some_iff_eq] at hslot
            refine .kill i hi rfl ?_ ?_ ?_ <;> simp [Creates, Ends, Charges, slotOf_eq_some_iff_eq, hslot]
        | runnable | blocked =>
            apply CallEffect.keep
            · intro j
              rw [NovaScheduler.thread_mark]
              split
              · next he => simp [he, hi]
              · rfl
            · intro j
              rw [NovaScheduler.thread_mark]
              split
              · next he => rw [he]
              · rfl
            · rfl
            · simp [Creates]
            · simp [Ends]
            · simp [Charges]
  | account id =>
      rw [schedMachine_next_account]
      rcases novaSchedAccount_cases s id with ⟨hdead, hr⟩ | ⟨i, hslot, hi, hr⟩ <;> rw [hr]
      · apply CallEffect.keep <;> simp [Creates, Ends, Charges]
        exact hdead
      · rw [slotOf_eq_some_iff_eq] at hslot
        refine .charge i hi rfl ?_ ?_ ?_ <;> simp [Creates, Ends, Charges, slotOf_eq_some_iff_eq, hslot]

/-! ## The invariant -/

def NovaScheduler.total (s : NovaScheduler) : Nat := ∑ i ∈ s.live, (s.thread i).quanta.toNat

/-- The counters agree with the history, and what they have lost of each other was lost by a death. -/
structure AccountInv (s : NovaScheduler) (history : List SchedCall) : Prop where
  tick : s.tick.toNat = accounted history
  live : ∀ id, namesLive history id = true ↔ ∃ i, slotOf id = some i ∧ (s.thread i).state ≠ .dead
  quanta : ∀ id i, slotOf id = some i → (s.thread i).state ≠ .dead →
    (s.thread i).quanta.toNat = chargesSince history id
  total_le : s.total ≤ accounted history
  total_eq : s.total = accounted history ↔ ¬ ChargedDied history

theorem total_spawn {s : NovaScheduler} {i : Fin 32} (hi : (s.thread i).state = .dead) (priority) :
    (s.spawn i priority).total = s.total := by
  have hmem : i ∉ s.live := by simp [mem_live, hi]
  rw [NovaScheduler.total, live_spawn, Finset.sum_insert hmem, NovaScheduler.total]
  simp only [NovaScheduler.thread_spawn, ↓reduceIte, UInt64.toNat_zero, zero_add]
  apply Finset.sum_congr rfl
  intro j hj
  rw [if_neg]
  rintro rfl
  exact hmem hj

theorem total_mark_dead {s : NovaScheduler} {i : Fin 32} (hi : (s.thread i).state ≠ .dead) :
    (s.mark i .dead).total + (s.thread i).quanta.toNat = s.total := by
  have hrest : (s.mark i .dead).total = ∑ j ∈ s.live.erase i, (s.thread j).quanta.toNat := by
    rw [NovaScheduler.total, live_mark_dead]
    apply Finset.sum_congr rfl
    intro j hj
    rw [NovaScheduler.thread_mark, if_neg (Finset.ne_of_mem_erase hj)]
  rw [hrest]
  exact Finset.sum_erase_add s.live _ (mem_live.mpr hi)

theorem total_charge {s : NovaScheduler} {i : Fin 32} (hi : (s.thread i).state ≠ .dead)
    (hmax : (s.thread i).quanta.toNat < 2 ^ 64 - 1) : (s.charge i).total = s.total + 1 := by
  have hmem : i ∈ s.live := mem_live.mpr hi
  have hrest : ∑ j ∈ s.live.erase i, ((s.charge i).thread j).quanta.toNat =
      ∑ j ∈ s.live.erase i, (s.thread j).quanta.toNat := by
    apply Finset.sum_congr rfl
    intro j hj
    rw [NovaScheduler.quanta_charge_of_ne (Finset.ne_of_mem_erase hj)]
  rw [NovaScheduler.total, live_charge, ← Finset.sum_erase_add _ _ hmem, hrest, NovaScheduler.quanta_charge_self hmax,
    ← Nat.add_assoc, Finset.sum_erase_add _ _ hmem]
  rfl

theorem quanta_le_total {s : NovaScheduler} {i : Fin 32} (hi : (s.thread i).state ≠ .dead) :
    (s.thread i).quanta.toNat ≤ s.total :=
  Finset.single_le_sum (f := fun j => (s.thread j).quanta.toNat) (fun _ _ => Nat.zero_le _) (mem_live.mpr hi)

theorem exists_slotOf (i : Fin 32) : ∃ id, slotOf id = some i := ⟨UInt32.ofNat i + 1, slotOf_eq_some_iff_eq.mpr rfl⟩

theorem exists_slotOf_congr {id : UInt32} {p q : Fin 32 → Prop} (h : ∀ j, slotOf id = some j → (p j ↔ q j)) :
    (∃ j, slotOf id = some j ∧ p j) ↔ ∃ j, slotOf id = some j ∧ q j := by
  apply exists_congr
  intro j
  apply and_congr_right
  exact h j

theorem slotOf_unique {id : UInt32} {i j : Fin 32} (hi : slotOf id = some i) (hj : slotOf id = some j) : j = i :=
  Option.some.inj (hj.symm.trans hi)

theorem AccountInv.init (memory : NovaScheduler) : AccountInv (novaSchedInit memory) [] where
  tick := rfl
  live id := by simp [namesLive]
  quanta id i _ hlive := by simp at hlive
  total_le := by simp [NovaScheduler.total, live_init]
  total_eq := by simp [NovaScheduler.total, live_init, ChargedDied, accounted, accountedFrom]

variable {s s' : NovaScheduler} {history : List SchedCall} {c : SchedCall}

theorem accounted_append_of_not (h : ∀ id, Charges id c → namesLive history id = false) :
    accounted (history ++ [c]) = accounted history := by
  rw [accounted_append, if_neg, Nat.add_zero]
  rw [chargesLive_iff]
  rintro ⟨id, hcharges, hlive⟩
  rw [h id hcharges] at hlive
  cases hlive

theorem AccountInv.create (h : AccountInv s history) {i : Fin 32} (priority) (hdead : (s.thread i).state = .dead)
    (hcreates : ∀ id, Creates id c ↔ slotOf id = some i) (hends : ∀ id, ¬ Ends id c) (hcharges : ∀ id, ¬ Charges id c) :
    AccountInv (s.spawn i priority) (history ++ [c]) := by
  have haccounted : accounted (history ++ [c]) = accounted history :=
    accounted_append_of_not fun id hcharge => absurd hcharge (hcharges id)
  constructor
  · rw [haccounted]
    exact h.tick
  · intro id
    rw [namesLive_append]
    simp only [hcreates, hends, ↓reduceIte, NovaScheduler.thread_spawn]
    by_cases hslot : slotOf id = some i
    · simp [hslot]
    · rw [if_neg hslot, h.live]
      apply exists_slotOf_congr
      intro j hj
      have hne : j ≠ i := by
        rintro rfl
        exact hslot hj
      rw [if_neg hne]
  · intro id j hslot hlive
    rw [chargesSince_append]
    simp only [hcreates, hcharges, ↓reduceIte, Nat.add_zero, NovaScheduler.thread_spawn] at hlive ⊢
    by_cases hji : j = i
    · simp [hji, hslot]
    · have hne : slotOf id ≠ some i := fun hi => hji (slotOf_unique hi hslot)
      rw [if_neg hji] at hlive
      rw [if_neg hji, if_neg hne]
      exact h.quanta id j hslot hlive
  · rw [total_spawn hdead, haccounted]
    exact h.total_le
  · rw [total_spawn hdead, haccounted, chargedDied_append, h.total_eq]
    simp [hends]

theorem AccountInv.kill (h : AccountInv s history) {i : Fin 32} (hi : (s.thread i).state ≠ .dead)
    (hcreates : ∀ id, ¬ Creates id c) (hends : ∀ id, Ends id c ↔ slotOf id = some i) (hcharges : ∀ id, ¬ Charges id c) :
    AccountInv (s.mark i .dead) (history ++ [c]) := by
  have haccounted : accounted (history ++ [c]) = accounted history :=
    accounted_append_of_not fun id hcharge => absurd hcharge (hcharges id)
  have htotal := total_mark_dead hi
  constructor
  · rw [haccounted]
    exact h.tick
  · intro id
    rw [namesLive_append]
    simp only [hcreates, hends, ↓reduceIte, NovaScheduler.thread_mark]
    by_cases hslot : slotOf id = some i
    · simp [hslot]
    · rw [if_neg hslot, h.live]
      apply exists_slotOf_congr
      intro j hj
      have hne : j ≠ i := by
        rintro rfl
        exact hslot hj
      rw [if_neg hne]
  · intro id j hslot hlive
    rw [chargesSince_append]
    simp only [hcreates, hcharges, ↓reduceIte, Nat.add_zero, NovaScheduler.thread_mark] at hlive ⊢
    by_cases hji : j = i
    · simp [hji] at hlive
    · rw [if_neg hji] at hlive
      rw [if_neg hji]
      exact h.quanta id j hslot hlive
  · have hle := h.total_le
    rw [haccounted]
    omega
  · -- The total falls short by the quanta of the dead thread.
    have hcharged : (∃ id, Ends id c ∧ 0 < chargesSince history id) ↔ 0 < (s.thread i).quanta.toNat := by
      constructor
      · rintro ⟨id, hend, hpos⟩
        rwa [h.quanta id i ((hends id).mp hend) hi]
      · intro hpos
        obtain ⟨id, hid⟩ := exists_slotOf i
        refine ⟨id, (hends id).mpr hid, ?_⟩
        rwa [← h.quanta id i hid hi]
    have hle := h.total_le
    have heq := h.total_eq
    rw [haccounted, chargedDied_append, hcharged, not_or, ← heq]
    omega

theorem AccountInv.charge (h : AccountInv s history) {i : Fin 32} (hi : (s.thread i).state ≠ .dead)
    (hcreates : ∀ id, ¬ Creates id c) (hends : ∀ id, ¬ Ends id c) (hcharges : ∀ id, Charges id c ↔ slotOf id = some i)
    (hmax : accounted (history ++ [c]) < 2 ^ 64) : AccountInv (s.charge i) (history ++ [c]) := by
  have haccounted : accounted (history ++ [c]) = accounted history + 1 := by
    obtain ⟨id, hid⟩ := exists_slotOf i
    have hcharge : chargesLive history c = true :=
      chargesLive_iff.mpr ⟨id, (hcharges id).mpr hid, (h.live id).mpr ⟨i, hid, hi⟩⟩
    rw [accounted_append, if_pos hcharge]
  have hle := h.total_le
  have hquanta : (s.thread i).quanta.toNat < 2 ^ 64 - 1 := by
    have hsmall := quanta_le_total hi
    omega
  have htotal := total_charge hi hquanta
  constructor
  · have htick : s.tick.toNat < 2 ^ 64 - 1 := by
      rw [h.tick]
      omega
    rw [haccounted, ← h.tick, ← toNat_add_one htick]
    rfl
  · intro id
    rw [namesLive_append]
    simp only [hcreates, hends, ↓reduceIte, h.live, NovaScheduler.state_charge]
  · intro id j hslot hlive
    rw [NovaScheduler.state_charge] at hlive
    rw [chargesSince_append, if_neg (hcreates id)]
    simp only [hcharges]
    by_cases hji : j = i
    · rw [hji] at hslot ⊢
      rw [NovaScheduler.quanta_charge_self hquanta, if_pos hslot, h.quanta id i hslot hi]
    · have hne : slotOf id ≠ some i := fun hi => hji (slotOf_unique hi hslot)
      rw [NovaScheduler.quanta_charge_of_ne hji, if_neg hne, Nat.add_zero]
      exact h.quanta id j hslot hlive
  · rw [htotal, haccounted]
    exact Nat.succ_le_succ hle
  · rw [htotal, haccounted, chargedDied_append, Nat.add_right_cancel_iff, h.total_eq]
    simp [hends]

theorem AccountInv.keep (h : AccountInv s history) (hlive : ∀ j, (s'.thread j).state ≠ .dead ↔ (s.thread j).state ≠ .dead)
    (hquanta : ∀ j, (s'.thread j).quanta = (s.thread j).quanta) (htick : s'.tick = s.tick)
    (hcreates : ∀ id, ¬ Creates id c) (hends : ∀ id, ¬ Ends id c)
    (hcharges : ∀ id, Charges id c → ∀ i, slotOf id = some i → (s.thread i).state = .dead) :
    AccountInv s' (history ++ [c]) := by
  have hnames : ∀ id, Charges id c → namesLive history id = false := by
    intro id hcharge
    rw [← Bool.not_eq_true, h.live]
    rintro ⟨i, hslot, hi⟩
    exact hi (hcharges id hcharge i hslot)
  have haccounted := accounted_append_of_not hnames
  have htotal : s'.total = s.total := by
    have hsame : s'.live = s.live := by
      ext j
      rw [mem_live, mem_live, hlive]
    rw [NovaScheduler.total, hsame]
    simp only [hquanta, NovaScheduler.total]
  constructor
  · rw [haccounted, htick]
    exact h.tick
  · intro id
    rw [namesLive_append]
    simp only [hcreates, hends, ↓reduceIte, h.live, hlive]
  · intro id j hslot hj
    have hnot : ¬ Charges id c := fun hcharge => (hlive j).mp hj (hcharges id hcharge j hslot)
    rw [chargesSince_append, if_neg (hcreates id), if_neg hnot, hquanta]
    exact h.quanta id j hslot ((hlive j).mp hj)
  · rw [htotal, haccounted]
    exact h.total_le
  · rw [htotal, haccounted, chargedDied_append, h.total_eq]
    simp [hends]

theorem AccountInv.next (h : AccountInv s history) (op : SchedOp)
    (hmax : accounted (history ++ [(op, schedMachine.out s op)]) < 2 ^ 64) :
    AccountInv (schedMachine.next s op) (history ++ [(op, schedMachine.out s op)]) := by
  cases callEffect s op with
  | create i priority hdead hnext hcreates hends hcharges =>
      rw [hnext]
      exact h.create priority hdead hcreates hends hcharges
  | kill i hlive hnext hcreates hends hcharges =>
      rw [hnext]
      exact h.kill hlive hcreates hends hcharges
  | charge i hlive hnext hcreates hends hcharges =>
      rw [hnext]
      exact h.charge hlive hcreates hends hcharges hmax
  | keep hlive hquanta htick hcreates hends hcharges => exact h.keep hlive hquanta htick hcreates hends hcharges

/-! ## Whole runs -/

def SchedOp.IsAccount : SchedOp → Bool
  | .account _ => true
  | _ => false

theorem accountedFrom_le (before history : List SchedCall) :
    accountedFrom before history ≤ history.countP fun c => c.1.IsAccount := by
  induction history generalizing before with
  | nil => rfl
  | cons c rest ih =>
      have hrest := ih (before ++ [c])
      have hone : chargesLive before c = true → c.1.IsAccount = true := by
        intro hcharge
        obtain ⟨op, answer⟩ := c
        cases op with
        | account id => rfl
        | add | setState => cases hcharge
      rw [accountedFrom, List.countP_cons]
      by_cases hcharge : chargesLive before c = true
      · simp only [hcharge, hone hcharge, ↓reduceIte]
        omega
      · simp only [hcharge, Bool.false_eq_true, ↓reduceIte]
        omega

theorem AccountInv.exec (memory : NovaScheduler) {ops : List SchedOp} (hfew : ops.countP SchedOp.IsAccount < 2 ^ 64) :
    AccountInv (schedMachine.exec (novaSchedInit memory) ops) (schedMachine.trace (novaSchedInit memory) ops) := by
  -- As long as the accounts are few, the invariant holds.
  let Inv (s : NovaScheduler) (history : List SchedCall) : Prop :=
    history.countP (fun c => c.1.IsAccount) < 2 ^ 64 → AccountInv s history
  have hstep : ∀ s history op, Inv s history →
      Inv (schedMachine.next s op) (history ++ [(op, schedMachine.out s op)]) := by
    intro s history op h hfew
    have hbefore : history.countP (fun c => c.1.IsAccount) < 2 ^ 64 := by
      rw [List.countP_append] at hfew
      omega
    exact (h hbefore).next op ((accountedFrom_le [] _).trans_lt hfew)
  have hrun : Inv (schedMachine.exec (novaSchedInit memory) ops) (schedMachine.trace (novaSchedInit memory) ops) :=
    Machine.history_invariant hstep (fun _ => .init memory) ops
  apply hrun
  have hops : (schedMachine.trace (novaSchedInit memory) ops).countP (fun c => c.1.IsAccount) =
      ops.countP SchedOp.IsAccount := by
    conv_rhs => rw [← schedMachine.map_fst_trace (novaSchedInit memory) ops, List.countP_map]
    rfl
  rwa [hops]

/-- The counters of a scheduler with the history of its calls. -/
structure AccountingMeets (s : NovaScheduler) (history : List SchedCall) : Prop where
  tick : s.tick.toNat = accounted history
  live : ∀ id, namesLive history id = true ↔ ∃ i, (s.thread i).state ≠ .dead ∧ (s.thread i).id = id
  quanta : ∀ i, (s.thread i).state ≠ .dead → (s.thread i).quanta.toNat = chargesSince history (s.thread i).id
  total_le : ∑ i ∈ s.live, (s.thread i).quanta.toNat ≤ s.tick.toNat
  total_eq : ∑ i ∈ s.live, (s.thread i).quanta.toNat = s.tick.toNat ↔ ¬ ChargedDied history

/-- In a run from an initialised scheduler with less than 2 ^ 64 accounts, the counters are what the history says. -/
theorem sched_accounting_exact (memory : NovaScheduler) {ops : List SchedOp}
    (hfew : ops.countP SchedOp.IsAccount < 2 ^ 64) :
    AccountingMeets (schedMachine.exec (novaSchedInit memory) ops) (schedMachine.trace (novaSchedInit memory) ops) := by
  have h := AccountInv.exec memory hfew
  have hinv := SchedInv.exec memory ops
  constructor
  · exact h.tick
  · intro id
    rw [h.live]
    apply exists_congr
    intro i
    rw [and_comm]
    apply and_congr_right
    intro hi
    rw [slotOf_eq_some_iff, ← hinv i hi, UInt32.toNat_inj, eq_comm]
  · intro i hi
    exact h.quanta _ i (slotOf_eq_some_iff.mpr (hinv i hi)) hi
  · rw [h.tick]
    exact h.total_le
  · rw [h.tick]
    exact h.total_eq

theorem sched_accounting_exact_reuse :
    AccountingMeets
      (schedMachine.exec (novaSchedInit zeroedScheduler)
        [.add 10 0, .account 1, .setState 1 .dead, .account 1, .add 20 0, .account 1, .account 40])
      (schedMachine.trace (novaSchedInit zeroedScheduler)
        [.add 10 0, .account 1, .setState 1 .dead, .account 1, .add 20 0, .account 1, .account 40]) :=
  sched_accounting_exact zeroedScheduler (by decide)

end NovaOs.Core
